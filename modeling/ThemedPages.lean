import ThemedPages.Disk.Tree
import ThemedPages.Main
import ThemedPages.Proofs.Ascents
import ThemedPages.Proofs.Endings
import ThemedPages.Proofs.Expansion
import ThemedPages.Proofs.Histories
import ThemedPages.Proofs.Overlays
import ThemedPages.Proofs.Provenance
import ThemedPages.Proofs.ReadingTemplates
import ThemedPages.Proofs.Truncation
import ThemedPages.Proofs.Checks
import ThemedPages.Proofs.Cuts
import ThemedPages.Proofs.Limits
import ThemedPages.Proofs.Places
import ThemedPages.Proofs.PassingOn
import ThemedPages.Proofs.Flaws
import ThemedPages.Proofs.Calls
import ThemedPages.Proofs.Confinement
import ThemedPages.Proofs.Tables
import ThemedPages.Proofs.Scopes
import ThemedPages.Proofs.Printing
import ThemedPages.Proofs.Literals
import ThemedPages.Proofs.Faces
import ThemedPages.Proofs.Mending
import ThemedPages.Proofs.Tracking
import ThemedPages.Proofs.Reports
import ThemedPages.Proofs.Arguments
import ThemedPages.Proofs.CommandWords
import ThemedPages.Proofs.Directories
import ThemedPages.Proofs.Configurations
