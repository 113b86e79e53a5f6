import TagTemplate.Main
import TagTemplate.Proofs.CommandLine.Rewriting
import TagTemplate.Proofs.Engine.BoundedStore
import TagTemplate.Proofs.Engine.Concatenation
import TagTemplate.Proofs.Engine.IntegerLoops
import TagTemplate.Proofs.Engine.ScopeDiscipline
import TagTemplate.Proofs.Engine.Unrolling
import TagTemplate.Proofs.Store.Eviction
import TagTemplate.Proofs.Syntax.Image
import TagTemplate.Proofs.Syntax.Nesting
import TagTemplate.Session
import TagTemplate.Text.Abbreviate
import TagTemplate.Proofs.Decimal.Value
import TagTemplate.Proofs.Engine.Expressions
import TagTemplate.Proofs.Engine.StackHeight
import TagTemplate.Proofs.Double.SeventeenDigits
import TagTemplate.Proofs.Number.Denotation
import TagTemplate.Proofs.Pattern.Compiled
import TagTemplate.Proofs.Pattern.Places
import TagTemplate.Proofs.Pattern.Fixed
import TagTemplate.Proofs.Pattern.Scientific
import TagTemplate.Proofs.Engine.TokenBoundary
import TagTemplate.Proofs.Double.Conversion
import TagTemplate.Proofs.Number.Wrapping
import TagTemplate.Proofs.Number.Order
import TagTemplate.Proofs.Pattern.Grammar
import TagTemplate.Proofs.Pattern.Affixes
import TagTemplate.Proofs.Pattern.NumberParts
import TagTemplate.Proofs.Pattern.Acceptance
import TagTemplate.Proofs.Syntax.ViablePrefix
import TagTemplate.Proofs.Pattern.Quoting
import TagTemplate.Proofs.Pattern.Plain
import TagTemplate.Proofs.Engine.StoredNumbers
import TagTemplate.Proofs.Number.Words
import TagTemplate.Proofs.Engine.Written
import TagTemplate.Proofs.Syntax.Outline
import TagTemplate.Proofs.Scope.Independence
import TagTemplate.Proofs.CommandLine.Seeding
