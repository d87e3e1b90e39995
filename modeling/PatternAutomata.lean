import PatternAutomata.CharSet.Basic
import PatternAutomata.Text.Span
import PatternAutomata.Unicode.Property
import PatternAutomata.Unicode.Script
import PatternAutomata.Unicode.Folding
import PatternAutomata.Unicode.Names
import PatternAutomata.Expr.Matches
import PatternAutomata.Expr.Printer
import PatternAutomata.Automaton.Marks
import PatternAutomata.Automaton.Edit
import PatternAutomata.Automaton.History
import PatternAutomata.Automaton.EpsilonFree
import PatternAutomata.Automaton.Determinized
import PatternAutomata.Automaton.Quotient
import PatternAutomata.Automaton.Compaction
import PatternAutomata.Automaton.Printer
import PatternAutomata.Construction.Compiled
import PatternAutomata.Search.Reach
import PatternAutomata.Search.Find
import PatternAutomata.Pattern.Hir
import PatternAutomata.Expr.Parser
import PatternAutomata.Pattern.Reader
import PatternAutomata.Pattern.Meaning
import PatternAutomata.Pattern.Standard
import PatternAutomata.Regex
import PatternAutomata.Proofs.Built
import PatternAutomata.Proofs.Numbering
import PatternAutomata.Proofs.Additions
import PatternAutomata.Proofs.Runs
import PatternAutomata.Proofs.SigmaClosure
import PatternAutomata.Proofs.Backtracking
import PatternAutomata.Proofs.SingleWay
import PatternAutomata.Proofs.Atoms
import PatternAutomata.Proofs.SigmaFree
import PatternAutomata.Proofs.SubsetRun
import PatternAutomata.Proofs.Determinized
import PatternAutomata.Proofs.Division
import PatternAutomata.Proofs.Minimized
import PatternAutomata.Proofs.Mapped
import PatternAutomata.Proofs.Windows
import PatternAutomata.Proofs.Find
import PatternAutomata.Proofs.Histories
import PatternAutomata.Proofs.Transforms
import PatternAutomata.Proofs.Fragments
import PatternAutomata.Proofs.Prepared
import PatternAutomata.Proofs.Stepwise
import PatternAutomata.Proofs.Compiled
import PatternAutomata.Proofs.Offsets
import PatternAutomata.Proofs.Regexes
import PatternAutomata.Proofs.Letters
import PatternAutomata.Proofs.Ranks
import PatternAutomata.Proofs.Discovery
import PatternAutomata.Proofs.Residuals
import PatternAutomata.Proofs.Canonical
import PatternAutomata.Proofs.Equivalent
import PatternAutomata.Proofs.Configurations
import PatternAutomata.Proofs.Lowering
import PatternAutomata.Proofs.Rules
import PatternAutomata.Proofs.SoundNormals
import PatternAutomata.Proofs.OrderedTrees
import PatternAutomata.Proofs.ParsedRegexes
import PatternAutomata.Proofs.Scanning
import PatternAutomata.Proofs.ClassReading
import PatternAutomata.Proofs.CharSets
import PatternAutomata.Proofs.ClassMeaning
import PatternAutomata.Proofs.FixedClasses
import PatternAutomata.Proofs.BoundsReading
import PatternAutomata.Proofs.RangeRows
import PatternAutomata.Proofs.BranchReading
import PatternAutomata.Proofs.NormalMatches
import PatternAutomata.Proofs.TreeMatches
import PatternAutomata.Proofs.StandardTables
import PatternAutomata.Proofs.StandardParser
import PatternAutomata.Proofs.Spelling
import PatternAutomata.Proofs.Reparsed
import PatternAutomata.Proofs.Agreement
import PatternAutomata.Proofs.SetAlgebra
import PatternAutomata.Proofs.Strategies
import PatternAutomata.Proofs.Surroundings
import PatternAutomata.Proofs.Locality
import PatternAutomata.Proofs.Mirrors
import PatternAutomata.Proofs.SigmaRemoval
import PatternAutomata.Proofs.Bisimulations
import PatternAutomata.Proofs.Coarsest
import PatternAutomata.Proofs.Idempotent
import PatternAutomata.Proofs.Trails
import PatternAutomata.Proofs.Decisions
import PatternAutomata.Proofs.Offences
import PatternAutomata.Proofs.OnePass
import PatternAutomata.Proofs.Copies
import PatternAutomata.Proofs.Compaction
import PatternAutomata.Proofs.Machines
import PatternAutomata.Proofs.Halting
import PatternAutomata.Proofs.Checkpoints
import PatternAutomata.Proofs.Visits
import PatternAutomata.Proofs.Simulation
import PatternAutomata.Proofs.Nesting
import PatternAutomata.Proofs.Execution
import PatternAutomata.Proofs.Deletion
import PatternAutomata.Proofs.ClassPatterns
import PatternAutomata.Proofs.NamedClasses
import PatternAutomata.Proofs.Sharing
import PatternAutomata.Proofs.Lockstep
import PatternAutomata.Proofs.Caching
import PatternAutomata.Proofs.Loops
import PatternAutomata.Proofs.Preorder
import PatternAutomata.Proofs.Rounds
import PatternAutomata.Proofs.CodePoints
import PatternAutomata.Proofs.RangeLists
import PatternAutomata.Proofs.Spindles
import PatternAutomata.Proofs.Appending
