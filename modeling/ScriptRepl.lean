import ScriptRepl.Main
import ScriptRepl.Proofs.Realm.Speculation
import ScriptRepl.Proofs.Assist.NoTrace
import ScriptRepl.Proofs.Console.Generation
import ScriptRepl.Proofs.Console.Belonging
import ScriptRepl.Proofs.Syntax.Viability
import ScriptRepl.Proofs.Syntax.ViableStatement
import ScriptRepl.Proofs.Syntax.Continuation
import ScriptRepl.Proofs.Console.Chunking
import ScriptRepl.Proofs.Console.Editing
import ScriptRepl.Proofs.Console.Offsets
import ScriptRepl.Proofs.Syntax.Grammar
import ScriptRepl.Proofs.Syntax.ReadOperand
import ScriptRepl.Proofs.Syntax.ReadExpression
import ScriptRepl.Proofs.Syntax.Stratified
import ScriptRepl.Proofs.Realm.Holding
import ScriptRepl.Proofs.Assist.OwnGroup
import ScriptRepl.Proofs.Console.Desk
import ScriptRepl.Proofs.Console.Ownership
import ScriptRepl.Proofs.Console.Sittings
import ScriptRepl.Proofs.Console.Statements
import ScriptRepl.Proofs.Console.Cycling
import ScriptRepl.Proofs.Console.Repaint
import ScriptRepl.Proofs.Realm.Fault
import ScriptRepl.Proofs.Syntax.Tiling
import ScriptRepl.Proofs.Syntax.Highlighting
import ScriptRepl.Proofs.Syntax.LastWord
import ScriptRepl.Proofs.Assist.Chain
import ScriptRepl.Proofs.Realm.Listed
import ScriptRepl.Proofs.Assist.Candidates
import ScriptRepl.Proofs.Number.Sign
import ScriptRepl.Proofs.Realm.Datum
import ScriptRepl.Proofs.Realm.Literal
import ScriptRepl.Proofs.Syntax.Spelling
import ScriptRepl.Proofs.Syntax.Writing
import ScriptRepl.Proofs.Realm.ReadBack
import ScriptRepl.Proofs.Console.Alone
import ScriptRepl.Proofs.Console.Conduct
import ScriptRepl.Proofs.Console.Saving
import ScriptRepl.Proofs.Console.Unimpaired
import ScriptRepl.Proofs.Syntax.Shortened
import ScriptRepl.Proofs.Syntax.Unclosed
import ScriptRepl.Proofs.Syntax.Mending
import ScriptRepl.Proofs.Text.Lossy
import ScriptRepl.Proofs.Console.Provenance
import ScriptRepl.Proofs.Console.Revision
import ScriptRepl.Proofs.Console.Typing
import ScriptRepl.Proofs.Syntax.Holes
import ScriptRepl.Proofs.Syntax.Embedded
import ScriptRepl.Proofs.Syntax.Moved
import ScriptRepl.Proofs.Syntax.Sequence
import ScriptRepl.Proofs.Syntax.Placeless
import ScriptRepl.Proofs.Syntax.Joined
import ScriptRepl.Proofs.Syntax.LineEnds
import ScriptRepl.Proofs.Syntax.Overwritten
import ScriptRepl.Proofs.Syntax.Comments
import ScriptRepl.Proofs.Realm.Assigned
import ScriptRepl.Proofs.Realm.Declared
import ScriptRepl.Proofs.Realm.Room
import ScriptRepl.Proofs.Realm.Cycle
import ScriptRepl.Proofs.Realm.Outline
import ScriptRepl.Proofs.Number.Characters
import ScriptRepl.Proofs.Realm.Circular
import ScriptRepl.Proofs.Realm.Coloured
import ScriptRepl.Proofs.Json.Passing
import ScriptRepl.Proofs.Json.RoundTrip
import ScriptRepl.Proofs.Number.Whole
import ScriptRepl.Proofs.Realm.Portable
import ScriptRepl.Proofs.Console.Searching
import ScriptRepl.Proofs.Console.Bindings
import ScriptRepl.Proofs.Console.Leaving
import ScriptRepl.Proofs.Console.Uncontrolled
import ScriptRepl.Proofs.Syntax.Height
import ScriptRepl.Proofs.Realm.Depth
import ScriptRepl.Proofs.Console.Drawing
import ScriptRepl.Proofs.Console.Overprint
import ScriptRepl.Proofs.Syntax.Matched
import ScriptRepl.Proofs.Syntax.Clipped
import ScriptRepl.Proofs.Syntax.Weight
import ScriptRepl.Proofs.Syntax.Slice
import ScriptRepl.Proofs.Assist.LastOperand
import ScriptRepl.Proofs.Assist.Target
import ScriptRepl.Proofs.Text.Size
import ScriptRepl.Proofs.Json.Within
import ScriptRepl.Proofs.Number.Length
import ScriptRepl.Proofs.Realm.Fits
import ScriptRepl.Proofs.Realm.Fitting
import ScriptRepl.Proofs.Realm.Moderate
import ScriptRepl.Proofs.Realm.TextLimit
import ScriptRepl.Proofs.Console.ControlSequences
import ScriptRepl.Proofs.Console.Moments
import ScriptRepl.Proofs.Console.Accepting
import ScriptRepl.Proofs.Console.Recalling
import ScriptRepl.Proofs.Console.WideCharacters
import ScriptRepl.Proofs.Console.Placing
import ScriptRepl.Proofs.Console.Interrupting
import ScriptRepl.Proofs.Number.Digits
import ScriptRepl.Proofs.Realm.Indices
import ScriptRepl.Proofs.Realm.Aliasing
import ScriptRepl.Proofs.Realm.Units
import ScriptRepl.Proofs.Syntax.Characters
import ScriptRepl.Proofs.Assist.Hinted
import ScriptRepl.Proofs.Console.WordMotion
import ScriptRepl.Proofs.Text.Underlined
import ScriptRepl.Proofs.Realm.TextMethods
import ScriptRepl.Proofs.Number.Radix
import ScriptRepl.Proofs.Realm.RadixText
import ScriptRepl.Proofs.Assist.Previewed
import ScriptRepl.Proofs.Realm.OneLine
import ScriptRepl.Proofs.Text.Adjoining
import ScriptRepl.Proofs.Console.Table
import ScriptRepl.Proofs.Syntax.Decoding
import ScriptRepl.Proofs.Console.Walking
import ScriptRepl.Proofs.Console.Outstanding
import ScriptRepl.Proofs.Realm.Enduring
import ScriptRepl.Proofs.Assist.Arguments
