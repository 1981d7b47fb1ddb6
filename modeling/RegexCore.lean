import RegexCore.Search.Iterator
import RegexCore.Search.Progress
import RegexCore.Search.Order
import RegexCore.Search.Captures
import RegexCore.Search.Offsets
import RegexCore.Search.Runs
import RegexCore.Search.Refinement
import RegexCore.Syntax.Span
import RegexCore.Syntax.Ast
import RegexCore.Syntax.Print
import RegexCore.Syntax.Flags
import RegexCore.Syntax.Builders
