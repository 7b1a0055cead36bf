import HelpMiner.Signature.Declaration
import HelpMiner.Proofs.Text.Blank
import HelpMiner.Proofs.Text.Letter

/-! The ways to write a block of declarations: one on each line, in any accepted spelling. -/
namespace HelpMiner.Signature

/-- A character without its letter case. The long s is an s. -/
def foldCase (c : Char) : Char := if c == 'ſ' then 's' else c.toLower

/-- `t` is `word` in some letter case. -/
def InCase (word t : List Char) : Prop := t.map foldCase = word.map foldCase

instance (word t : List Char) : Decidable (InCase word t) :=
  inferInstanceAs (Decidable (t.map foldCase = word.map foldCase))

/-- A name of a parameter, which no qualifier can be. -/
structure IsIdent (s : List Char) : Prop where
  first : ∃ c rest, s = c :: rest ∧ (c.isAlpha = true ∨ c = '_')
  chars : ∀ c ∈ s, Text.isAsciiWord c = true
  free : ∀ q ∈ qualifiers, ¬ InCase q.toList s

/-- The name of a type: a keyword in any letter case, its underscore left out or not, or the name
    of a record. -/
inductive IsType : List Char → Prop where
  | keyword {k : String × HostType} {t : List Char} (hk : k ∈ typeKeywords)
      (ht : InCase k.1.toList t ∨ InCase (keywordStem k.1) t) : IsType t
  | record {rest : List Char} (hr : ∀ c ∈ rest, Text.isAsciiWord c = true) :
      IsType (recordLead.toList ++ rest)

/-- A declaration of a parameter. -/
structure Declared where
  ident : List Char
  /-- Whether a pair of parentheses follows the identifier. -/
  isArray : Bool
  type : List Char
  isIdent : IsIdent ident
  isType : IsType type

namespace Declared

/-- The pair of parentheses after the identifier of an array. -/
def marks (d : Declared) : List Char := if d.isArray then ['(', ')'] else []

/-- The declared name. -/
def name (d : Declared) : List Char := d.ident ++ d.marks

/-- The parameter that is declared. -/
def param (d : Declared) : Param := ⟨String.ofList (cleanName d.name), String.ofList d.type⟩

/-- The return binding that is declared. -/
def binding (d : Declared) : List String := [String.ofList d.ident, String.ofList d.type]

end Declared

/-- White space within a line. -/
def Blanks (s : List Char) : Prop := ∀ c ∈ s, Text.isBlank c = true ∧ c ≠ '\n'

/-- Qualifiers in any letter case, with white space after each. -/
inductive Qualified : List Char → Prop where
  | nil : Qualified []
  | cons {q : String} {w blanks more : List Char} (hq : q ∈ qualifiers) (hw : InCase q.toList w)
      (hb : Blanks blanks) (hne : blanks ≠ []) (hm : Qualified more) :
      Qualified (w ++ (blanks ++ more))

/-- A type with what connects it to the name before it. The closing parenthesis and the blanks
    before it are `closing`. -/
inductive Connects (type : List Char) : List Char → List Char → Prop where
  | word {before w after : List Char} (hb : Blanks before) (hbne : before ≠ [])
      (hw : InCase ['a', 's'] w) (ha : Blanks after) (hane : after ≠ []) :
      Connects type (before ++ (w ++ after)) []
  | parens {before after last : List Char} (hb : Blanks before) (ha : Blanks after)
      (hl : Blanks last) : Connects type (before ++ '(' :: after) (last ++ [')'])

/-- The spellings of one declaration on a line. -/
inductive Spells (d : Declared) : List Char → Prop where
  | intro {lead quals conn closing trail : List Char} (hl : Blanks lead) (hq : Qualified quals)
      (hc : Connects d.type conn closing) (ht : Blanks trail) :
      Spells d (lead ++ (quals ++ (d.name ++ (conn ++ (d.type ++ (closing ++ trail))))))

/-- Declarations on lines of their own, with blank lines between and after them. -/
inductive Block : List Declared → List (List Char) → Prop where
  | nil : Block [] []
  | cons {d : Declared} {line : List Char} {blank : List (List Char)} {ds : List Declared}
      {lines : List (List Char)} (hd : Spells d line) (hb : ∀ l ∈ blank, Blanks l)
      (hm : Block ds lines) : Block (d :: ds) (line :: (blank ++ lines))

/-- Lines as one text. -/
def joinLines (lines : List (List Char)) : String := String.ofList (['\n'].intercalate lines)

end HelpMiner.Signature
