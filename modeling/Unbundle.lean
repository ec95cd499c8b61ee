import Unbundle.Main
import Unbundle.Proofs.Clearing
import Unbundle.Proofs.Glossary.Admission
import Unbundle.Proofs.Layout
import Unbundle.Proofs.Schema.Partition
import Unbundle.Proofs.Schema.Balance
import Unbundle.Proofs.Selection
import Unbundle.Proofs.Splitter
import Unbundle.Proofs.Schema.Remark
import Unbundle.Proofs.Schema.Outline
import Unbundle.Proofs.Annotation
import Unbundle.Proofs.Glossary.Order
import Unbundle.Proofs.Tree.Path
import Unbundle.Proofs.Names
import Unbundle.Proofs.Imports
import Unbundle.Proofs.Tree.Files
import Unbundle.Proofs.Effect
import Unbundle.Proofs.Delivery
import Unbundle.Proofs.Command.Reading
import Unbundle.Proofs.Command.Session
import Unbundle.Proofs.Command.Preview
import Unbundle.Proofs.Opcodes
import Unbundle.Proofs.Schema.CommandId
import Unbundle.Proofs.Documents
import Unbundle.Proofs.Capture
import Unbundle.Proofs.Lookup
import Unbundle.Proofs.Schema.Sequel
import Unbundle.Proofs.Pattern.Matching
import Unbundle.Proofs.Pattern.Reading
import Unbundle.Proofs.Verdicts
import Unbundle.Proofs.Alteration
import Unbundle.Proofs.Noted
import Unbundle.Proofs.Schema.EnumValue
import Unbundle.Proofs.Schema.Field
import Unbundle.Proofs.Enums
import Unbundle.Proofs.Stability
import Unbundle.Proofs.Dangling
import Unbundle.Proofs.Glossary.Counts
import Unbundle.Proofs.Glossary.Reading
import Unbundle.Proofs.Glossary.Rebuilding
import Unbundle.Proofs.OpcodeOrder
import Unbundle.Proofs.Schema.Insertion
import Unbundle.Proofs.Schema.Cursor
import Unbundle.Proofs.Counters
import Unbundle.Proofs.Command.Summary
import Unbundle.Proofs.Command.Inputs
