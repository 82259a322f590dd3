import Asl.Analysis
import Asl.Proofs.Alignment
import Asl.Proofs.Blame
import Asl.Proofs.Building
import Asl.Proofs.CallForms
import Asl.Proofs.Colour
import Asl.Proofs.Faults
import Asl.Proofs.FirstWrites
import Asl.Proofs.History
import Asl.Proofs.Independence
import Asl.Proofs.Interruption
import Asl.Proofs.Messages
import Asl.Proofs.Names
import Asl.Proofs.Order
import Asl.Proofs.Parentheses
import Asl.Proofs.Places
import Asl.Proofs.Registry
import Asl.Proofs.Renumbering
import Asl.Proofs.Shadowing
import Asl.Proofs.Shapes
import Asl.Proofs.Signature
import Asl.Proofs.Silence
import Asl.Proofs.Subscripts
import Asl.Proofs.Undeclared
import Asl.Proofs.Widening
import Asl.Proofs.Window
import Asl.Session
import Asl.Syntax.Builder
import Asl.Syntax.Equality
import Asl.Tables
