import LogDesk.Log.Record
import LogDesk.Markup
import LogDesk.Text.Decimal

/-! The detail of a record: all its fields in one block of markup, a span each. -/

namespace LogDesk

def levelWidth : Nat := 5

namespace Markup

def span (cs : List Char) : List Char :=
  "<span class=\"mx-1\">".toList ++ escape cs ++ "</span>".toList

end Markup

namespace Record

def detailFields (r : Record) : List (List Char) :=
  [r.timestamp.toList, Text.padRight levelWidth r.level.toList,
    '[' :: r.loggerName.toList ++ [']'], '(' :: r.threadName.toList ++ [')'], r.message.toList] ++
    (r.trace?.map String.toList).toList

def detailMarkup (r : Record) : List Char :=
  "<pre class=\"text-monospace\"><code>".toList ++ r.detailFields.flatMap Markup.span ++
    "</code></pre>".toList

def detail (r : Record) : String := String.ofList r.detailMarkup

end Record

end LogDesk
