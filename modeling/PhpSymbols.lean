import PhpSymbols.Main
import PhpSymbols.Proofs.Ty.Leaves
import PhpSymbols.Proofs.Ty.Canonical
import PhpSymbols.Proofs.Ty.Reading
import PhpSymbols.Proofs.Ty.Printing
import PhpSymbols.Proofs.Ty.RoundTrip
import PhpSymbols.Proofs.Symbol.Merge
import PhpSymbols.Proofs.Symbol.Bindings
import PhpSymbols.Proofs.Reflect.Merge
import PhpSymbols.Proofs.Reflect.Faithful
import PhpSymbols.Proofs.Reflect.Current
import PhpSymbols.Proofs.Reflect.Braces
import PhpSymbols.Proofs.Source.Keys
import PhpSymbols.Proofs.Reflect.Indexed
import PhpSymbols.Proofs.Reflect.Qualified
import PhpSymbols.Proofs.Reflect.Registered
import PhpSymbols.Proofs.Reflect.Supertypes
import PhpSymbols.Proofs.Reflect.Unrelated
import PhpSymbols.Proofs.Source.Walked
import PhpSymbols.Proofs.Reflect.Located
import PhpSymbols.Proofs.Reflect.Binding
import PhpSymbols.Proofs.Reflect.Placed
import PhpSymbols.Proofs.Reflect.View
import PhpSymbols.Proofs.Reflect.Sound
import PhpSymbols.Proofs.Reflect.Step
import PhpSymbols.Proofs.Reflect.Binds
import PhpSymbols.Proofs.Reflect.Locals
import PhpSymbols.Proofs.Reflect.Run
import PhpSymbols.Proofs.Reflect.Offset
import PhpSymbols.Proofs.Reflect.Origin
import PhpSymbols.Proofs.Reflect.Assignment
import PhpSymbols.Proofs.Reflect.Resolution
import PhpSymbols.Proofs.Reflect.Variables
import PhpSymbols.Proofs.Reflect.Arranged
import PhpSymbols.Proofs.Reflect.Isolation
import PhpSymbols.Proofs.Reflect.Listing
import PhpSymbols.Proofs.Reflect.Innermost
import PhpSymbols.Proofs.Reflect.Lookup
import PhpSymbols.Proofs.Reflect.Enclosing
import PhpSymbols.Proofs.Docblock.Layout
import PhpSymbols.Proofs.Source.Lazy
import PhpSymbols.Proofs.Ty.Union
import PhpSymbols.Proofs.Ty.Regrouping
import PhpSymbols.Proofs.Ty.Brackets
import PhpSymbols.Proofs.Ty.Alternation
import PhpSymbols.Proofs.Ty.Parts
import PhpSymbols.Proofs.Ty.Reserved
import PhpSymbols.Proofs.Text.Trimmed
import PhpSymbols.Proofs.Docblock.Comment
import PhpSymbols.Proofs.Text.LineEnd
import PhpSymbols.Proofs.Markdown.Writes
import PhpSymbols.Proofs.Markdown.Texts
import PhpSymbols.Proofs.Markdown.Shown
import PhpSymbols.Proofs.Text.Words
import PhpSymbols.Proofs.Docblock.Words
import PhpSymbols.Proofs.Ty.Arrays
import PhpSymbols.Proofs.Ty.Declared
import PhpSymbols.Proofs.Ty.Leading
import PhpSymbols.Proofs.Docblock.Parameter
import PhpSymbols.Proofs.Text.Separated
import PhpSymbols.Proofs.Docblock.Markup
import PhpSymbols.Proofs.Docblock.Initial
import PhpSymbols.Proofs.Docblock.Heading
import PhpSymbols.Proofs.Docblock.Signature
import PhpSymbols.Proofs.Docblock.Stripped
import PhpSymbols.Proofs.Php.Attached
import PhpSymbols.Proofs.Reflect.Course
import PhpSymbols.Proofs.Reflect.Finished
import PhpSymbols.Proofs.Reflect.Onward
import PhpSymbols.Proofs.Reflect.Parameters
import PhpSymbols.Proofs.Php.Evaluation
import PhpSymbols.Proofs.Reflect.Straight
import PhpSymbols.Proofs.Reflect.Compound
import PhpSymbols.Proofs.Php.Shifted
import PhpSymbols.Proofs.Reflect.Enumerated
import PhpSymbols.Proofs.Reflect.ImportedNames
import PhpSymbols.Proofs.Markdown.Page
import PhpSymbols.Proofs.Markdown.Wrapped
import PhpSymbols.Proofs.Markdown.Selection
import PhpSymbols.Proofs.Source.Conventional
import PhpSymbols.Proofs.Text.LineBreaks
import PhpSymbols.Proofs.Symbol.Lines
import PhpSymbols.Proofs.Php.Names
import PhpSymbols.Proofs.Php.Lawful
import PhpSymbols.Proofs.Docblock.Lines
import PhpSymbols.Proofs.Reflect.Lines
import PhpSymbols.Proofs.Ty.Joined
import PhpSymbols.Proofs.Reflect.Targets
