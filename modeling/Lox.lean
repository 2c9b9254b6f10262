import Lox.Command.Perform
import Lox.Main
import Lox.Session
import Lox.Proofs.Derivation
import Lox.Proofs.Exactness
import Lox.Proofs.Levels
import Lox.Proofs.CorrectPrefix
import Lox.Proofs.LexicalClass
import Lox.Proofs.Tiling
import Lox.Proofs.Correspondence
import Lox.Proofs.Contents
import Lox.Proofs.Typing
import Lox.Proofs.LineByLine
import Lox.Proofs.LayoutIndependence
import Lox.Proofs.Respacing
import Lox.Proofs.Counter
import Lox.Proofs.History
import Lox.Proofs.CommandAgreement
import Lox.Proofs.Unambiguous
import Lox.Proofs.Blame
import Lox.Proofs.Height
import Lox.Proofs.Places
import Lox.Proofs.Dialogue
import Lox.Proofs.Recovery
import Lox.Proofs.Blanking
import Lox.Proofs.RoundingInterval
import Lox.Proofs.NumberText
import Lox.Proofs.UniqueReading
import Lox.Proofs.Equality
import Lox.Proofs.Meaning
import Lox.Proofs.Bounds
import Lox.Proofs.Drawing
import Lox.Proofs.Underlining
import Lox.Proofs.Resumption
