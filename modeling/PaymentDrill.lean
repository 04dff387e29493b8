import PaymentDrill.Decimal.Reading
import PaymentDrill.Main
import PaymentDrill.Wallet.Standin
import PaymentDrill.Proofs.Course
import PaymentDrill.Proofs.Accounting
import PaymentDrill.Proofs.Opening
import PaymentDrill.Proofs.StopPoint
import PaymentDrill.Proofs.Independence
import PaymentDrill.Proofs.Limits
import PaymentDrill.Proofs.Replay
import PaymentDrill.Proofs.Parts
import PaymentDrill.Proofs.Funding
import PaymentDrill.Proofs.Interruption
import PaymentDrill.Proofs.Simulation
import PaymentDrill.Proofs.Chronicle
import PaymentDrill.Proofs.Lapses
import PaymentDrill.Proofs.Arguments
import PaymentDrill.Proofs.Cutoff
import PaymentDrill.Proofs.Scripted
import PaymentDrill.Proofs.Enactment
import PaymentDrill.Proofs.Rounding
import PaymentDrill.Proofs.Readers
import PaymentDrill.Proofs.Finiteness
import PaymentDrill.Proofs.Sampling
import PaymentDrill.Proofs.Tokens
import PaymentDrill.Proofs.Numerals
import PaymentDrill.Proofs.Passing
import PaymentDrill.Proofs.Grammar
import PaymentDrill.Proofs.Documents
import PaymentDrill.Proofs.Joining
import PaymentDrill.Proofs.Nearest
import PaymentDrill.Proofs.Amounts
import PaymentDrill.Proofs.Secrecy
import PaymentDrill.Proofs.Shortest
import PaymentDrill.Proofs.Rereading
import PaymentDrill.Proofs.Handover
import PaymentDrill.Proofs.Format
import PaymentDrill.Proofs.Evenness
import PaymentDrill.Proofs.Encoding
import PaymentDrill.Proofs.Transcript
import PaymentDrill.Proofs.Reports
import PaymentDrill.Proofs.Phrasing
import PaymentDrill.Proofs.Repetition
import PaymentDrill.Proofs.Alongside
import PaymentDrill.Proofs.Variables
import PaymentDrill.Proofs.Closeness
import PaymentDrill.Proofs.Accuracy
