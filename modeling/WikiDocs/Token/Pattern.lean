import WikiDocs.Pattern
import WikiDocs.Token

/-!
The pattern of each kind of token.
-/

namespace WikiDocs.Token

open Pattern

def digit : CharClass := .between '0' '9'

/-- A day between 2000 and 2039 in eight digits; more digits may follow. -/
def datePattern : Pattern :=
  .all [exact ['2', '0'], .one (.between '0' '3'), .one digit, .one (.among ['0', '1']),
    .one digit, .one (.between '0' '3'), .repeated digit .some]

/-- The pattern of a heading with `signs` equals signs on each side. -/
def headingPattern (signs : Nat) (times : Repetition) : Pattern :=
  let sign := exact (List.replicate signs '=')
  .all [.atStart, .repeated .blank .any, sign,
    .group "text" (.repeated (.notAmong ['=']) times), sign]

def Kind.pattern : Kind → Pattern
  | .pageBreak =>
    .all [.group "title" (.repeated .word .some), .repeated .blank .some, datePattern]
  | .title => headingPattern 3 .fewest
  | .subtitle => headingPattern 2 .some
  | .minorTitle => headingPattern 1 .some
  | .listItem =>
    .all [.atStart, .repeated (.among ['\\', '*']) .any, .one (.just '*'),
      .repeated (.among ['\\', '*']) .any, .repeated .blank .any]
  | .literalBlock => .all [.repeated .blank .any, exact [':', ':']]
  | .tableStart => .all [.one (.just '\x7b'), .repeated (.just '\\') .optional, .one (.just '|')]
  | .image =>
    .all [exact "\\ `".toList, .group "size" (.all [.repeated digit .some, exact ['p', 'x']]),
      .repeated .blank .any, .either (.one .blank) (.one (.just '|')), .repeated .blank .any,
      .group "label" (.repeated (.notAmong ['<']) .some), exact "<image:".toList,
      .group "path" (.repeated (.notAmong ['>']) .some), exact ">`__".toList]
  | .newline => .one (.just '\n')

end WikiDocs.Token
