import YoloLang.Main
import YoloLang.Session
import YoloLang.Proofs.Reading
import YoloLang.Proofs.Feed
import YoloLang.Proofs.Compile
import YoloLang.Proofs.Pieces
import YoloLang.Proofs.Values
import YoloLang.Proofs.Split
import YoloLang.Proofs.Derivation
import YoloLang.Proofs.Lexical
import YoloLang.Proofs.Recognition
import YoloLang.Proofs.Lexing
import YoloLang.Proofs.Tiling
import YoloLang.Proofs.Asking
import YoloLang.Proofs.Lockstep
import YoloLang.Proofs.Moments
import YoloLang.Proofs.Beginnings
import YoloLang.Proofs.Spacing
import YoloLang.Proofs.Precedence
import YoloLang.Proofs.Transport
import YoloLang.Proofs.Production
import YoloLang.Proofs.Forest
import YoloLang.Proofs.Growth
import YoloLang.Proofs.Account
import YoloLang.Proofs.TreeGraph
import YoloLang.Proofs.Nesting
import YoloLang.Proofs.Heralds
import YoloLang.Proofs.Header
import YoloLang.Proofs.Lines
import YoloLang.Proofs.Labels
import YoloLang.Proofs.Neighbours
import YoloLang.Proofs.LineByLine
import YoloLang.Proofs.Printing
import YoloLang.Proofs.Constants
import YoloLang.Proofs.Places
import YoloLang.Proofs.Loosening
import YoloLang.Proofs.Widening
import YoloLang.Proofs.Layout
import YoloLang.Proofs.Independence
import YoloLang.Proofs.Relexing
import YoloLang.Proofs.Recovery
import YoloLang.Proofs.Variables
import YoloLang.Proofs.CTokens
import YoloLang.Proofs.Scopes
import YoloLang.Proofs.Blocks
import YoloLang.Proofs.Senses
import YoloLang.Proofs.Disk
import YoloLang.Proofs.Saving
import YoloLang.Proofs.Sessions
import YoloLang.Proofs.Interleaving
import YoloLang.Proofs.Progress
import YoloLang.Proofs.OpenBodies
import YoloLang.Proofs.Excerpt
import YoloLang.Proofs.Unterminated
import YoloLang.Proofs.Marking
import YoloLang.Proofs.Invoking
import YoloLang.Proofs.Accepting
