import Brainfuck.Highlight
import Brainfuck.Main
import Brainfuck.Proofs.Blocks
import Brainfuck.Proofs.Scans
import Brainfuck.Proofs.Memory
import Brainfuck.Proofs.Runs
import Brainfuck.Proofs.Steps
import Brainfuck.Proofs.Structured
import Brainfuck.Proofs.Safety
import Brainfuck.Proofs.Partners
import Brainfuck.Proofs.Comments
import Brainfuck.Proofs.Budget
import Brainfuck.Proofs.Circle
import Brainfuck.Proofs.Displacement
import Brainfuck.Proofs.Representation
import Brainfuck.Proofs.Input
import Brainfuck.Proofs.Lines
import Brainfuck.Proofs.Table
import Brainfuck.Proofs.Lockstep
import Brainfuck.Proofs.Mirror
import Brainfuck.Proofs.Insertion
import Brainfuck.Proofs.InversePairs
import Brainfuck.Proofs.Interruption
import Brainfuck.Proofs.Exchange
import Brainfuck.Proofs.Interleaving
import Brainfuck.Proofs.Encoding
import Brainfuck.Proofs.Trims
import Brainfuck.Proofs.Submissions
import Brainfuck.Proofs.FrontEnds
import Brainfuck.Proofs.Sessions
import Brainfuck.Proofs.Grammar
import Brainfuck.Proofs.Repairs
import Brainfuck.Proofs.StyleRuns
import Brainfuck.Proofs.Culprits
import Brainfuck.Proofs.Summing
import Brainfuck.Proofs.Watching
import Brainfuck.Proofs.Verdicts
import Brainfuck.Proofs.Replay
import Brainfuck.Proofs.Updates
import Brainfuck.Proofs.ConfigLines
import Brainfuck.Proofs.Composition
import Brainfuck.Proofs.Assignments
import Brainfuck.Proofs.Values
import Brainfuck.Proofs.Precedence
