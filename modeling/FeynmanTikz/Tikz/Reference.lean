/-
The reference text of the accepted subset.

`grammarText` is the grammar and the notes on units, arrows and failure that are shown to the
people who edit the text form.
-/

namespace FeynmanTikz

/-- The lines of the reference text. -/
def grammarLines : List String :=
  ["```",
   "Document  := \x7b Line \x7d",
   "Line      := Blank | Comment | Wrapper | Stmt [ Comment ]",
   "Wrapper   := '\\begin\x7btikzpicture\x7d' [ '[' ... ']' ] | '\\end\x7btikzpicture\x7d'",
   "Stmt      := Point | Edge | Curve | Ellipse | Label",
   "",
   "Point     := '\\fill' Coord 'circle' '(' NUMBER ')' ';'",
   "Edge      := '\\draw' [ Attrs ] Coord '--' Coord ';'",
   "Curve     := '\\draw' [ Attrs ] Coord '..' 'controls' Coord '..' Coord ';'",
   "Ellipse   := '\\draw' [ Attrs ] Coord 'ellipse' '(' NUMBER 'and' NUMBER ')' ';'",
   "Label     := '\\node' 'at' Coord '\x7b' TEXT '\x7d' ';'",
   "",
   "Coord     := '(' NUMBER ',' NUMBER ')'",
   "Attrs     := '[' Attr \x7b ',' Attr \x7d ']'",
   "Attr      := 'draw=' ( '\x7brgb,255:red,' INT ';green,' INT ';blue,' INT '\x7d' | COLORNAME )",
   "            | 'line width=' NUMBER 'pt'",
   "            | 'dashed' | 'dotted'",
   "            | 'decorate' | 'decoration=\x7bsnake, ...\x7d' | 'decoration=\x7bcoil, ...\x7d'",
   "            | Tip? '-' Tip?",
   "            | other options (ignored)",
   "Comment   := '%' ... ;  '% edge-arrow: <style>' selects the arrow style of the edge",
   "```",
   "",
   "## Units",
   "",
   "* One text unit is 20 editor units; the text y axis points up.",
   "* `line width` is half of the editor stroke width, in points.",
   "* Numbers are written with two decimals.",
   "* Coordinates and lengths are bounded by 1e9 editor units (5e7 text units);",
   "  larger values fail the parse.",
   "",
   "## Arrow styles",
   "",
   "* `-\x7bStealth\x7d` forward, `\x7bStealth\x7d-` backward, `\x7bStealth\x7d-\x7bStealth\x7d` both.",
   "* `mid-forward`, `mid-backward`, `mid-cross` are drawn with a `markings`",
   "  postaction and recovered only from the `% edge-arrow:` comment; without it",
   "  they read back as the native tips on the line (usually none).",
   "",
   "## Failure",
   "",
   "Any non-blank line that is neither a comment, a wrapper line nor one of the",
   "five statements rejects the whole document; nothing is applied."]

/-- The reference text. -/
def grammarText : String := "\n".intercalate grammarLines

end FeynmanTikz
