import Melody.Lint.Report
import Melody.Main
import Melody.Program.Extract
import Melody.Settings
import Melody.Proofs.Closing
import Melody.Proofs.Comments
import Melody.Proofs.Crashes
import Melody.Proofs.Forwarding
import Melody.Proofs.Levels
import Melody.Proofs.LineNumbers
import Melody.Proofs.Lingering
import Melody.Proofs.Manners
import Melody.Proofs.MelodyContext
import Melody.Proofs.PlayLines
import Melody.Proofs.Playable
import Melody.Proofs.Recording
import Melody.Proofs.Renewal
import Melody.Proofs.Reordering
import Melody.Proofs.Shadowing
import Melody.Proofs.Spellings
import Melody.Proofs.StrayWords
import Melody.Proofs.Unbound
import Melody.Proofs.Watchers
import Melody.Proofs.Unrolling
import Melody.Proofs.Chords
import Melody.Proofs.LineLocality
import Melody.Proofs.Tiling
import Melody.Proofs.Comparisons
import Melody.Proofs.Suggestions
import Melody.Proofs.Unnoticed
import Melody.Proofs.Voicing
import Melody.Proofs.Semicolons
