import TreeTyping.Check.Session
import TreeTyping.Main
import TreeTyping.Tree.Constructor
import TreeTyping.Proofs.Syntax.Occurrence
import TreeTyping.Proofs.Flow.Exactness
import TreeTyping.Proofs.Inference
import TreeTyping.Proofs.Typing.Derivation
import TreeTyping.Proofs.Typing.Rules
import TreeTyping.Proofs.Typing.Soundness
import TreeTyping.Proofs.Syntax.Places
import TreeTyping.Proofs.Typing.Following
import TreeTyping.Proofs.Typing.Reissued
import TreeTyping.Proofs.Typing.Frame
import TreeTyping.Proofs.Tree.Place
import TreeTyping.Proofs.Tree.WellFormed
import TreeTyping.Proofs.Syntax.Reading
import TreeTyping.Proofs.Check.Function
import TreeTyping.Proofs.Syntax.Completeness
import TreeTyping.Proofs.Check.Signatures
import TreeTyping.Proofs.Check.Module
import TreeTyping.Proofs.Registry.AliasWalk
import TreeTyping.Proofs.Registry.Declaring
import TreeTyping.Proofs.Registry.Settling
import TreeTyping.Proofs.Syntax.Intact
import TreeTyping.Proofs.Safe
import TreeTyping.Proofs.Registry.Refusal
import TreeTyping.Proofs.Check.Limit
import TreeTyping.Proofs.Check.Workers
import TreeTyping.Proofs.Tree.Loading
import TreeTyping.Proofs.Composed.Endless
import TreeTyping.Proofs.Typing.Safety
import TreeTyping.Proofs.Check.Safety
import TreeTyping.Proofs.Check.Independence
import TreeTyping.Proofs.Tree.Written
import TreeTyping.Proofs.Ty.Renaming
import TreeTyping.Proofs.Registry.Reissue
import TreeTyping.Proofs.Registry.Extension
import TreeTyping.Proofs.Registry.Reordering
import TreeTyping.Proofs.Check.Reissued
import TreeTyping.Proofs.Check.Extension
import TreeTyping.Proofs.Check.Reordering
import TreeTyping.Proofs.Fact.Tables
import TreeTyping.Proofs.Check.Warnings
import TreeTyping.Proofs.Tree.Loaded
import TreeTyping.Proofs.Tree.Refusal
import TreeTyping.Proofs.Tree.Built
import TreeTyping.Proofs.Tree.Reloading
import TreeTyping.Proofs.Registry.Produced
import TreeTyping.Proofs.Assignability
import TreeTyping.Proofs.Interface.Satisfaction
import TreeTyping.Proofs.Interface.Sharing
import TreeTyping.Proofs.TypeText.Display
import TreeTyping.Proofs.Ledger
import TreeTyping.Proofs.Registry.Accounting
import TreeTyping.Proofs.Check.Accounting
import TreeTyping.Proofs.Typing.Expected
import TreeTyping.Proofs.Typing.Operands
import TreeTyping.Proofs.Syntax.Literals
import TreeTyping.Proofs.Typing.Constants
import TreeTyping.Proofs.Check.Constants
import TreeTyping.Proofs.Syntax.Lexical
import TreeTyping.Proofs.Typing.OwnType
import TreeTyping.Proofs.Typing.Writes
import TreeTyping.Proofs.Check.Writes
import TreeTyping.Proofs.Check.Names
import TreeTyping.Proofs.Composed.CommonType
import TreeTyping.Proofs.Flow.Unreachable
import TreeTyping.Proofs.Typing.Backings
import TreeTyping.Proofs.Check.Backings
import TreeTyping.Proofs.Registry.Changes
import TreeTyping.Proofs.Typing.Conversion
import TreeTyping.Proofs.Composed.Finite
import TreeTyping.Proofs.Settings
import TreeTyping.Proofs.Typing.Engine
