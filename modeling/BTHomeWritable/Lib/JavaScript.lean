import Mathlib.Data.List.Basic

/-!
# The lexical grammar of JavaScript

Texts are lists of characters.  A source is a list of the elements its text
consists of: single characters of names, numbers and punctuators, white space,
line terminators, string literals, the parts of template literals between
substitutions, and comments.  Which element a character belongs to depends on
the ones before it, so not every list of elements is what its text reads as:
`wellFormed` says which are, and `Source.ext_text` that a text has one reading.

Regular expressions are left out, and so are the comments that only old scripts
have (`<!--` and `#!`).  How characters that stand together divide into tokens,
and which line ends matter, are parameters.
-/

namespace JavaScript

/-! ## Characters -/

def backslash : Char := Char.ofNat 0x5C
def doubleQuote : Char := Char.ofNat 0x22
def singleQuote : Char := Char.ofNat 0x27
def backtick : Char := Char.ofNat 0x60

def isLineTerminator (c : Char) : Bool :=
  c.toNat == 0x0A || c.toNat == 0x0D || c.toNat == 0x2028 || c.toNat == 0x2029

def isWhiteSpace (c : Char) : Bool :=
  c.toNat == 0x09 || c.toNat == 0x0B || c.toNat == 0x0C || c.toNat == 0x20 || c.toNat == 0xA0 ||
    c.toNat == 0xFEFF || c.toNat == 0x1680 || (0x2000 ≤ c.toNat && c.toNat ≤ 0x200A) ||
    c.toNat == 0x202F || c.toNat == 0x205F || c.toNat == 0x3000

def isControl (c : Char) : Bool := c.toNat < 0x20 || (0x7F ≤ c.toNat && c.toNat ≤ 0x9F)

def isQuote (c : Char) : Bool := c == doubleQuote || c == singleQuote || c == backtick

/-- A character of a name, a number or a punctuator.  Every other character that is none of these
is let in too. -/
def isMark (c : Char) : Bool :=
  !(isWhiteSpace c || isLineTerminator c || isControl c || isQuote c)

/-! ## Elements -/

inductive Element where
  | mark (c : Char)
  | space (c : Char)
  | newline (c : Char)
  | string (quote : Char) (body : List Char)
  /-- A part of a template literal: `head` when the literal begins with it, `last` when it ends
  with it.  Otherwise a substitution ends before it, and another one begins after it. -/
  | template (head last : Bool) (body : List Char)
  | lineComment (body : List Char)
  | blockComment (body : List Char)
  deriving DecidableEq

def templateOpen (head : Bool) : Char := if head then backtick else '}'

def templateClose (last : Bool) : List Char := if last then [backtick] else ['$', '{']

def Element.text : Element → List Char
  | .mark c => [c]
  | .space c => [c]
  | .newline c => [c]
  | .string quote body => quote :: body ++ [quote]
  | .template head last body => templateOpen head :: body ++ templateClose last
  | .lineComment body => '/' :: '/' :: body
  | .blockComment body => '/' :: '*' :: body ++ ['*', '/']

def Element.isComment : Element → Bool
  | .lineComment _ => true
  | .blockComment _ => true
  | _ => false

def Element.isLiteral : Element → Bool
  | .string _ _ => true
  | .template _ _ _ => true
  | _ => false

def text (es : List Element) : List Char := es.flatMap Element.text

/-! ### What a literal or a comment may consist of -/

/-- Where the reading of a string stands: a backslash is before it, or one and a carriage return,
which a line feed may follow. -/
inductive Turn where
  | plain
  | escaped
  | returned
  deriving DecidableEq

def stringTurn (quote : Char) : Turn → Char → Option Turn
  | .escaped, c => some (if c = '\r' then .returned else .plain)
  | turn, c =>
    if c = backslash then some .escaped
    else if c = '\n' ∧ turn = .returned then some .plain
    else if c = quote ∨ c = '\n' ∨ c = '\r' then none
    else some .plain

def stringBody (quote : Char) : Turn → List Char → Bool
  | turn, [] => turn != .escaped
  | turn, c :: rest =>
    match stringTurn quote turn c with
    | none => false
    | some turn' => stringBody quote turn' rest

def templateBody : Bool → List Char → Bool
  | escaped, [] => !escaped
  | true, _ :: rest => templateBody false rest
  | false, c :: rest =>
    c != backtick && !(c == '$' && rest.head? == some '{') && templateBody (c == backslash) rest

def blockBody : List Char → Bool
  | [] => true
  | c :: rest => !(c == '*' && rest.head? == some '/') && blockBody rest

def Element.proper : Element → Bool
  | .mark c => isMark c
  | .space c => isWhiteSpace c
  | .newline c => isLineTerminator c
  | .string quote body =>
    (quote == doubleQuote || quote == singleQuote) && stringBody quote .plain body
  | .template _ _ body => templateBody false body
  | .lineComment body => !body.any isLineTerminator
  | .blockComment body => blockBody body

/-! ### What may stand together -/

/-- A slash before these would be the beginning of a comment. -/
def afterSlash : List Element → Bool
  | .mark c :: _ => c == '/' || c == '*'
  | e :: _ => e.isComment
  | [] => false

def atLineEnd : List Element → Bool
  | [] => true
  | .newline _ :: _ => true
  | _ => false

def Element.fits : Element → List Element → Bool
  | .mark c, rest => !(c == '/' && afterSlash rest)
  | .lineComment _, rest => atLineEnd rest
  | _, _ => true

/-- The substitutions an element leaves open, each with the number of braces open in it.  A closing
brace with none open in the innermost ends that substitution, and is no mark. -/
def Element.after : Element → List ℕ → Option (List ℕ)
  | .mark c, depth :: depths =>
    if c = '{' then some ((depth + 1) :: depths)
    else if c = '}' then (if depth = 0 then none else some ((depth - 1) :: depths))
    else some (depth :: depths)
  | .template true true _, depths => some depths
  | .template true false _, depths => some (0 :: depths)
  | .template false last _, 0 :: depths => some (if last then depths else 0 :: depths)
  | .template false _ _, _ => none
  | _, depths => some depths

def wellFormed : List ℕ → List Element → Bool
  | depths, [] => depths.isEmpty
  | depths, e :: rest =>
    e.proper && e.fits rest &&
      match e.after depths with
      | none => false
      | some depths' => wellFormed depths' rest

structure Source where
  elements : List Element
  wf : wellFormed [] elements

def Source.text (source : Source) : List Char := JavaScript.text source.elements

/-! ## Reading -/

def readString (quote : Char) : Turn → List Char → Option (List Char × List Char)
  | _, [] => none
  | turn, c :: rest =>
    if c = quote ∧ turn ≠ .escaped then some ([], rest)
    else match stringTurn quote turn c with
      | none => none
      | some turn' => (readString quote turn' rest).map fun r => (c :: r.1, r.2)

def readTemplate : Bool → List Char → Option (List Char × Bool × List Char)
  | _, [] => none
  | true, c :: rest => (readTemplate false rest).map fun r => (c :: r.1, r.2)
  | false, c :: rest =>
    if c = backtick then some ([], true, rest)
    else if c = '$' ∧ rest.head? = some '{' then some ([], false, rest.drop 1)
    else (readTemplate (c == backslash) rest).map fun r => (c :: r.1, r.2)

def readBlock : List Char → Option (List Char × List Char)
  | [] => none
  | c :: rest =>
    if c = '*' ∧ rest.head? = some '/' then some ([], rest.drop 1)
    else (readBlock rest).map fun r => (c :: r.1, r.2)

/-- The first element of a text, and what is after it. -/
def readElement (depths : List ℕ) : List Char → Option (Element × List Char)
  | [] => none
  | c :: rest =>
    if isWhiteSpace c then some (.space c, rest)
    else if isLineTerminator c then some (.newline c, rest)
    else if c = doubleQuote ∨ c = singleQuote then
      (readString c .plain rest).map fun r => (.string c r.1, r.2)
    else if c = backtick ∨ (c = '}' ∧ depths.head? = some 0) then
      (readTemplate false rest).map fun r => (.template (c == backtick) r.2.1 r.1, r.2.2)
    else if c = '/' ∧ rest.head? = some '/' then
      some (.lineComment ((rest.drop 1).takeWhile (!isLineTerminator ·)),
        (rest.drop 1).dropWhile (!isLineTerminator ·))
    else if c = '/' ∧ rest.head? = some '*' then
      (readBlock (rest.drop 1)).map fun r => (.blockComment r.1, r.2)
    else some (.mark c, rest)

section Reading

variable {quote : Char} {depths : List ℕ} {e : Element} {rest : List Char}

theorem stringTurn_quote {turn : Turn} (hquote : quote = doubleQuote ∨ quote = singleQuote)
    (hturn : turn ≠ .escaped) : stringTurn quote turn quote = none := by
  have hback : quote ≠ backslash := by rcases hquote with rfl | rfl <;> decide
  have hfeed : quote ≠ '\n' := by rcases hquote with rfl | rfl <;> decide
  cases turn with
  | escaped => exact absurd rfl hturn
  | plain => simp [stringTurn, hback]
  | returned => simp [stringTurn, hback, hfeed]

theorem readString_body (hquote : quote = doubleQuote ∨ quote = singleQuote) {body : List Char} :
    ∀ {turn : Turn}, stringBody quote turn body →
      readString quote turn (body ++ quote :: rest) = some (body, rest) := by
  induction body with
  | nil =>
    intro turn h
    have hturn : turn ≠ .escaped := by simpa [stringBody] using h
    simp [readString, hturn]
  | cons c body ih =>
    intro turn h
    rw [stringBody] at h
    cases hstep : stringTurn quote turn c with
    | none => simp [hstep] at h
    | some turn' =>
      rw [hstep] at h
      have hinside : ¬ (c = quote ∧ turn ≠ .escaped) := by
        rintro ⟨rfl, hturn⟩
        rw [stringTurn_quote hquote hturn] at hstep
        cases hstep
      rw [List.cons_append, readString, if_neg hinside, hstep]
      simp only [ih h, Option.map_some]

/-- Neither end of a part of a template begins with the brace that would open a substitution. -/
theorem head?_templateClose (last : Bool) : (templateClose last ++ rest).head? ≠ some '{' := by
  cases last <;> simp [templateClose, backtick]

theorem readTemplate_body {body : List Char} {last : Bool} :
    ∀ {escaped : Bool}, templateBody escaped body →
      readTemplate escaped (body ++ templateClose last ++ rest) = some (body, last, rest) := by
  induction body with
  | nil =>
    intro escaped h
    obtain rfl : escaped = false := by simpa [templateBody] using h
    cases last <;> simp [templateClose, readTemplate, backtick]
  | cons c body ih =>
    intro escaped h
    cases escaped with
    | true =>
      rw [templateBody] at h
      rw [List.cons_append, List.cons_append, readTemplate, ih h, Option.map_some]
    | false =>
      rw [templateBody] at h
      simp only [Bool.and_eq_true, bne_iff_ne, Bool.not_eq_true', Bool.and_eq_false_iff,
        beq_eq_false_iff_ne] at h
      obtain ⟨⟨htick, hopen⟩, hbody⟩ := h
      have hinside : ¬ (c = '$' ∧ (body ++ templateClose last ++ rest).head? = some '{') := by
        rintro ⟨rfl, hbrace⟩
        cases body with
        | nil => exact head?_templateClose last hbrace
        | cons d body => exact hopen.resolve_left (not_not_intro rfl) hbrace
      rw [List.cons_append, List.cons_append, readTemplate, if_neg htick, if_neg hinside, ih hbody,
        Option.map_some]

theorem readBlock_body {body : List Char} (h : blockBody body) :
    readBlock (body ++ '*' :: '/' :: rest) = some (body, rest) := by
  induction body with
  | nil => simp [readBlock]
  | cons c body ih =>
    simp only [blockBody, Bool.and_eq_true, Bool.not_eq_true', Bool.and_eq_false_iff,
      beq_eq_false_iff_ne] at h
    obtain ⟨hclose, hbody⟩ := h
    have hinside : ¬ (c = '*' ∧ (body ++ '*' :: '/' :: rest).head? = some '/') := by
      rintro ⟨rfl, hslash⟩
      cases body with
      | nil => exact absurd hslash (by simp)
      | cons d body => exact hclose.resolve_left (not_not_intro rfl) hslash
    rw [List.cons_append, readBlock, if_neg hinside, ih hbody, Option.map_some]

theorem isWhiteSpace_of_isLineTerminator {c : Char} (h : isLineTerminator c) :
    isWhiteSpace c = false := by
  simp only [isLineTerminator, Bool.or_eq_true, beq_iff_eq] at h
  have hnat : c.toNat = 0x0A ∨ c.toNat = 0x0D ∨ c.toNat = 0x2028 ∨ c.toNat = 0x2029 := by
    rcases h with ((h | h) | h) | h <;> simp [h]
  rcases hnat with h | h | h | h <;> simp [isWhiteSpace, h]

structure Mark (c : Char) : Prop where
  white : isWhiteSpace c = false
  line : isLineTerminator c = false
  control : isControl c = false
  double : c ≠ doubleQuote
  single : c ≠ singleQuote
  tick : c ≠ backtick

theorem isMark_iff {c : Char} : isMark c = true ↔ Mark c := by
  constructor
  · intro h
    simp only [isMark, isQuote, Bool.not_eq_true', Bool.or_eq_false_iff, beq_eq_false_iff_ne] at h
    obtain ⟨⟨⟨hwhite, hline⟩, hcontrol⟩, ⟨hdouble, hsingle⟩, htick⟩ := h
    exact ⟨hwhite, hline, hcontrol, hdouble, hsingle, htick⟩
  · intro h
    simp [isMark, isQuote, h.white, h.line, h.control, h.double, h.single, h.tick]

@[simp] theorem text_nil : text [] = [] := List.flatMap_nil

@[simp] theorem text_cons (es : List Element) : text (e :: es) = e.text ++ text es :=
  List.flatMap_cons

theorem wellFormed_cons {es : List Element} (h : wellFormed depths (e :: es)) :
    e.proper ∧ e.fits es ∧ ∃ depths', e.after depths = some depths' ∧ wellFormed depths' es := by
  rw [wellFormed, Bool.and_eq_true, Bool.and_eq_true] at h
  obtain ⟨⟨hproper, hfits⟩, hrest⟩ := h
  cases hafter : e.after depths with
  | none => simp [hafter] at hrest
  | some depths' =>
    rw [hafter] at hrest
    exact ⟨hproper, hfits, depths', rfl, hrest⟩

/-- A slash whose next character could begin a comment has an element after it that forbids it. -/
theorem afterSlash_of_head {c : Char} (hc : c = '/' ∨ c = '*') {es : List Element}
    (h : wellFormed depths es) (hhead : (text es).head? = some c) : afterSlash es := by
  cases es with
  | nil => simp at hhead
  | cons e es =>
    obtain ⟨hproper, -, -⟩ := wellFormed_cons h
    cases e with
    | mark d =>
      obtain rfl : d = c := by simpa [Element.text] using hhead
      rcases hc with rfl | rfl <;> rfl
    | space d =>
      obtain rfl : d = c := by simpa [Element.text] using hhead
      rcases hc with rfl | rfl <;> simp [Element.proper, isWhiteSpace] at hproper
    | newline d =>
      obtain rfl : d = c := by simpa [Element.text] using hhead
      rcases hc with rfl | rfl <;> simp [Element.proper, isLineTerminator] at hproper
    | string quote body =>
      obtain rfl : quote = c := by simpa [Element.text] using hhead
      rcases hc with rfl | rfl <;>
        simp [Element.proper, doubleQuote, singleQuote] at hproper
    | template head last body =>
      obtain rfl : templateOpen head = c := by simpa [Element.text] using hhead
      cases head <;> simp [templateOpen, backtick] at hc
    | lineComment body => rfl
    | blockComment body => rfl

theorem takeWhile_body {body : List Char} (hbody : body.any isLineTerminator = false)
    {es : List Element} (h : wellFormed depths es) (hend : atLineEnd es) :
    (body ++ text es).takeWhile (!isLineTerminator ·) = body ∧
      (body ++ text es).dropWhile (!isLineTerminator ·) = text es := by
  have hinside : ∀ c ∈ body, (!isLineTerminator c) = true := by
    intro c hc
    rw [List.any_eq_false] at hbody
    simp [hbody c hc]
  have hstop : (text es).takeWhile (!isLineTerminator ·) = [] ∧
      (text es).dropWhile (!isLineTerminator ·) = text es := by
    cases es with
    | nil => simp
    | cons e es =>
      cases e with
      | newline c =>
        have hc : isLineTerminator c = true := (wellFormed_cons h).1
        simp [Element.text, hc]
      | _ => simp [atLineEnd] at hend
  rw [List.takeWhile_append_of_pos hinside, List.dropWhile_append_of_pos hinside, hstop.1,
    hstop.2, List.append_nil]
  exact ⟨rfl, rfl⟩

/-- The text of a source reads as its elements, one after another. -/
theorem readElement_text {es : List Element} (h : wellFormed depths (e :: es)) :
    readElement depths (text (e :: es)) = some (e, text es) := by
  obtain ⟨hproper, hfits, depths', hafter, hrest⟩ := wellFormed_cons h
  rw [text_cons]
  cases e with
  | mark c =>
    have hc : Mark c := isMark_iff.mp hproper
    have hbrace : ¬ (c = '}' ∧ depths.head? = some 0) := by
      rintro ⟨rfl, hdepth⟩
      cases depths with
      | nil => simp at hdepth
      | cons depth depths =>
        obtain rfl : depth = 0 := by simpa using hdepth
        simp [Element.after] at hafter
    have hslash : ∀ d, d = '/' ∨ d = '*' → ¬ (c = '/' ∧ (text es).head? = some d) := by
      rintro d hd ⟨rfl, hhead⟩
      simp [Element.fits, afterSlash_of_head hd hrest hhead] at hfits
    simp [Element.text, readElement, hc.white, hc.line, hc.double, hc.single, hc.tick, hbrace,
      hslash '/' (.inl rfl), hslash '*' (.inr rfl)]
  | space c =>
    have hc : isWhiteSpace c = true := hproper
    simp [Element.text, readElement, hc]
  | newline c =>
    have hc : isLineTerminator c = true := hproper
    simp [Element.text, readElement, isWhiteSpace_of_isLineTerminator hc, hc]
  | string quote body =>
    simp only [Element.proper, Bool.and_eq_true, Bool.or_eq_true, beq_iff_eq] at hproper
    obtain ⟨hquote, hbody⟩ := hproper
    have hwhite : isWhiteSpace quote = false ∧ isLineTerminator quote = false := by
      rcases hquote with rfl | rfl <;> decide
    simp only [Element.text, List.cons_append, List.append_assoc, List.nil_append, readElement,
      hwhite.1, hwhite.2, if_pos hquote, readString_body hquote hbody, Bool.false_eq_true,
      if_false, Option.map_some]
  | template head last body =>
    have hopen : isWhiteSpace (templateOpen head) = false ∧
        isLineTerminator (templateOpen head) = false ∧
        ¬ (templateOpen head = doubleQuote ∨ templateOpen head = singleQuote) ∧
        (templateOpen head == backtick) = head := by
      cases head <;> decide
    have hbegins : templateOpen head = backtick ∨
        (templateOpen head = '}' ∧ depths.head? = some 0) := by
      cases head with
      | true => exact .inl rfl
      | false =>
        cases depths with
        | nil => simp [Element.after] at hafter
        | cons depth depths =>
          cases depth with
          | zero => exact .inr ⟨rfl, rfl⟩
          | succ depth => simp [Element.after] at hafter
    simp only [Element.text, List.cons_append, readElement, hopen.1, hopen.2.1, hopen.2.2.2,
      if_neg hopen.2.2.1, if_pos hbegins, readTemplate_body hproper, Bool.false_eq_true,
      if_false, Option.map_some]
  | lineComment body =>
    have hbody : body.any isLineTerminator = false := by simpa [Element.proper] using hproper
    obtain ⟨htake, hdrop⟩ := takeWhile_body hbody hrest hfits
    have hslash : isWhiteSpace '/' = false ∧ isLineTerminator '/' = false ∧
        ¬ ('/' = doubleQuote ∨ '/' = singleQuote) ∧ '/' ≠ backtick := by decide
    simp [Element.text, readElement, hslash, htake, hdrop]
  | blockComment body =>
    have hslash : isWhiteSpace '/' = false ∧ isLineTerminator '/' = false ∧
        ¬ ('/' = doubleQuote ∨ '/' = singleQuote) ∧ '/' ≠ backtick := by decide
    simp [Element.text, readElement, hslash, readBlock_body hproper]

/-- A text has one reading. -/
theorem elements_unique {es : List Element} :
    ∀ {es' : List Element} {depths : List ℕ}, wellFormed depths es → wellFormed depths es' →
      text es = text es' → es = es' := by
  induction es with
  | nil =>
    intro es' depths h h' htext
    cases es' with
    | nil => rfl
    | cons e' es' =>
      have hread := readElement_text h'
      rw [← htext] at hread
      simp [readElement] at hread
  | cons e es ih =>
    intro es' depths h h' htext
    have hread := readElement_text h
    cases es' with
    | nil =>
      rw [htext] at hread
      simp [readElement] at hread
    | cons e' es' =>
      rw [htext, readElement_text h'] at hread
      obtain ⟨rfl, hrest⟩ := Prod.mk.inj (Option.some.inj hread)
      obtain ⟨-, -, depths₁, hafter, hwf⟩ := wellFormed_cons h
      obtain ⟨-, -, depths₂, hafter', hwf'⟩ := wellFormed_cons h'
      obtain rfl : depths₂ = depths₁ := Option.some.inj (hafter'.symm.trans hafter)
      rw [ih hwf hwf' hrest.symm]

theorem Source.ext_text {source source' : Source} (h : source.text = source'.text) :
    source = source' := by
  cases source with
  | mk es hwf =>
    cases source' with
    | mk es' hwf' =>
      obtain rfl := elements_unique hwf hwf' h
      rfl

end Reading

/-! ## Tokens -/

/-- What stands between gaps: characters that nothing separates, or a literal. -/
inductive Piece where
  | run (chars : List Char)
  | literal (text : List Char)
  deriving DecidableEq

/-- The gap a source begins with, and its pieces with the gap after each. -/
abbrev Layout := List Element × List (Piece × List Element)

/-- A character before the rest of a source: it joins a run that no gap keeps from it. -/
def Layout.mark (c : Char) : Layout → Layout
  | ([], (.run chars, gap) :: pieces) => ([], (.run (c :: chars), gap) :: pieces)
  | (gap, pieces) => ([], (.run [c], gap) :: pieces)

def Layout.literal (text : List Char) (l : Layout) : Layout := ([], (.literal text, l.1) :: l.2)

def Layout.gap (e : Element) (l : Layout) : Layout := (e :: l.1, l.2)

def Element.lay (e : Element) (l : Layout) : Layout :=
  match e with
  | .mark c => l.mark c
  | .string _ _ => l.literal e.text
  | .template _ _ _ => l.literal e.text
  | _ => l.gap e

def layout : List Element → Layout
  | [] => ([], [])
  | e :: rest => e.lay (layout rest)

/-- Line terminators end statements also from within a comment. -/
def Element.endsLine : Element → Bool
  | .newline _ => true
  | .blockComment body => body.any isLineTerminator
  | _ => false

inductive Token where
  | word (chars : List Char)
  | literal (text : List Char)
  | lineEnd
  deriving DecidableEq

def Token.isLineEnd : Token → Bool
  | .lineEnd => true
  | _ => false

/-- What is left to a parameter: the tokens that characters without a gap divide into, and whether a
line terminator between what is before it and the tokens after it matters for where statements
end. -/
structure Rules where
  words : List Char → List (List Char)
  matters : List Token → List Token → Bool
  flatten_words : ∀ chars, (words chars).flatten = chars
  nil_notMem : ∀ chars, [] ∉ words chars

variable (rules : Rules)

def Piece.tokens : Piece → List Token
  | .run chars => (rules.words chars).map .word
  | .literal text => [.literal text]

def Rules.lineEnd (before after : List Token) (ends : Bool) : List Token :=
  if after ≠ [] ∧ ends ∧ rules.matters before after then [.lineEnd] else []

/-- The tokens of pieces without line ends. -/
def bareTokens (pieces : List (Piece × List Element)) : List Token :=
  pieces.flatMap fun p => p.1.tokens rules

/-- The tokens before some pieces and theirs, with the line ends between them that matter. -/
def tokensFrom (before : List Token) : List (Piece × List Element) → List Token
  | [] => before
  | (piece, gap) :: rest =>
    let now := before ++ piece.tokens rules
    tokensFrom (now ++ rules.lineEnd now (bareTokens rules rest) (gap.any Element.endsLine)) rest

def Source.tokens (source : Source) : List Token :=
  tokensFrom rules [] (layout source.elements).2

section Tokens

variable {rules} {before : List Token} {depths : List ℕ} {e : Element} {es : List Element}
  {pieces : List (Piece × List Element)}

@[simp] theorem bareTokens_cons (p : Piece × List Element)
    (pieces : List (Piece × List Element)) :
    bareTokens rules (p :: pieces) = p.1.tokens rules ++ bareTokens rules pieces :=
  List.flatMap_cons

@[simp] theorem lineEnd_false (before after : List Token) :
    rules.lineEnd before after false = [] := by
  simp [Rules.lineEnd]

@[simp] theorem lineEnd_nil (before : List Token) (ends : Bool) :
    rules.lineEnd before [] ends = [] := by
  simp [Rules.lineEnd]

theorem lineEnd_cases (rules : Rules) (before after : List Token) (ends : Bool) :
    rules.lineEnd before after ends = [] ∨ rules.lineEnd before after ends = [.lineEnd] := by
  unfold Rules.lineEnd
  split
  · exact .inr rfl
  · exact .inl rfl

theorem isLineEnd_of_mem_piece {piece : Piece} {token : Token} (h : token ∈ piece.tokens rules) :
    token.isLineEnd = false := by
  cases piece with
  | run chars =>
    obtain ⟨word, -, rfl⟩ := List.mem_map.mp h
    rfl
  | literal text =>
    obtain rfl := List.mem_singleton.mp h
    rfl

theorem prefix_tokensFrom (before : List Token) (pieces : List (Piece × List Element)) :
    before <+: tokensFrom rules before pieces := by
  induction pieces generalizing before with
  | nil => exact List.prefix_refl before
  | cons p rest ih =>
    rw [tokensFrom, List.append_assoc]
    exact (List.prefix_append before _).trans (ih _)

/-- Without the line ends the tokens are those of the pieces. -/
theorem filter_tokensFrom (before : List Token) (pieces : List (Piece × List Element)) :
    (tokensFrom rules before pieces).filter (!Token.isLineEnd ·) =
      before.filter (!Token.isLineEnd ·) ++ bareTokens rules pieces := by
  induction pieces generalizing before with
  | nil => simp [tokensFrom, bareTokens]
  | cons p rest ih =>
    have hpiece : (p.1.tokens rules).filter (!Token.isLineEnd ·) = p.1.tokens rules := by
      rw [List.filter_eq_self]
      intro token htoken
      rw [isLineEnd_of_mem_piece htoken]
      rfl
    have hline : ∀ now after ends,
        (rules.lineEnd now after ends).filter (!Token.isLineEnd ·) = [] := by
      intro now after ends
      rcases lineEnd_cases rules now after ends with h | h <;> rw [h] <;> rfl
    rw [tokensFrom, ih, List.filter_append, List.filter_append, hpiece, hline, List.append_nil,
      bareTokens_cons, List.append_assoc]

theorem filter_tokens (source : Source) : (source.tokens rules).filter (!Token.isLineEnd ·) =
    bareTokens rules (layout source.elements).2 :=
  filter_tokensFrom [] _

/-- No piece is without tokens. -/
theorem tokens_ne_nil : ∀ p ∈ (layout es).2, p.1.tokens rules ≠ [] := by
  have hrun : ∀ c chars, (Piece.run (c :: chars)).tokens rules ≠ [] := by
    intro c chars h
    have hflatten := rules.flatten_words (c :: chars)
    rw [List.map_eq_nil_iff.mp h] at hflatten
    cases hflatten
  induction es with
  | nil => exact nofun
  | cons e es ih =>
    rw [layout]
    generalize layout es = l at ih ⊢
    cases e with
    | mark c =>
      rw [Element.lay]
      unfold Layout.mark
      split
      · next chars gap pieces =>
        intro p hp
        rcases List.mem_cons.mp hp with rfl | hp
        · exact hrun c chars
        · exact ih p (List.mem_cons_of_mem _ hp)
      · next gap pieces hnew =>
        intro p hp
        rcases List.mem_cons.mp hp with rfl | hp
        · exact hrun c []
        · exact ih p hp
    | string quote body =>
      intro p hp
      rcases List.mem_cons.mp hp with rfl | hp
      · exact List.cons_ne_nil _ _
      · exact ih p hp
    | template head last body =>
      intro p hp
      rcases List.mem_cons.mp hp with rfl | hp
      · exact List.cons_ne_nil _ _
      · exact ih p hp
    | _ => exact ih

/-- The literals among the pieces are those among the elements. -/
theorem literal_mem_layout {t : List Char} :
    (∃ gap, (Piece.literal t, gap) ∈ (layout es).2) ↔ ∃ e ∈ es, e.isLiteral ∧ e.text = t := by
  induction es with
  | nil => simp [layout]
  | cons e es ih =>
    have hother : (∃ gap, (Piece.literal t, gap) ∈ (e.lay (layout es)).2) ↔
        (e.isLiteral ∧ e.text = t) ∨ ∃ gap, (Piece.literal t, gap) ∈ (layout es).2 := by
      generalize layout es = l
      cases e with
      | mark c =>
        rw [Element.lay]
        unfold Layout.mark
        split <;> simp [Element.isLiteral]
      | string quote body =>
        simp only [Element.lay, Layout.literal, List.mem_cons, Prod.mk.injEq, Piece.literal.injEq,
          exists_or, exists_and_left, exists_eq, and_true, Element.isLiteral, true_and]
        rw [eq_comm]
      | template head last body =>
        simp only [Element.lay, Layout.literal, List.mem_cons, Prod.mk.injEq, Piece.literal.injEq,
          exists_or, exists_and_left, exists_eq, and_true, Element.isLiteral, true_and]
        rw [eq_comm]
      | _ => simp [Element.lay, Layout.gap, Element.isLiteral]
    rw [layout, hother, ih]
    simp

theorem literal_mem_bareTokens {t : List Char} :
    Token.literal t ∈ bareTokens rules pieces ↔ ∃ gap, (Piece.literal t, gap) ∈ pieces := by
  rw [bareTokens, List.mem_flatMap]
  constructor
  · rintro ⟨⟨piece, gap⟩, hp, htoken⟩
    cases piece with
    | run chars => simp [Piece.tokens] at htoken
    | literal text =>
      obtain rfl : t = text := by simpa [Piece.tokens] using htoken
      exact ⟨gap, hp⟩
  · rintro ⟨gap, hp⟩
    exact ⟨_, hp, List.mem_singleton_self _⟩

theorem literal_mem_tokens {source : Source} {t : List Char} :
    Token.literal t ∈ source.tokens rules ↔ ∃ e ∈ source.elements, e.isLiteral ∧ e.text = t := by
  have hbare : Token.literal t ∈ source.tokens rules ↔
      Token.literal t ∈ bareTokens rules (layout source.elements).2 := by
    rw [← filter_tokens, List.mem_filter]
    simp [Token.isLineEnd]
  rw [hbare, literal_mem_bareTokens, literal_mem_layout]

theorem proper_of_mem (h : wellFormed depths es) (he : e ∈ es) : e.proper := by
  induction es generalizing depths with
  | nil => cases he
  | cons d es ih =>
    obtain ⟨hproper, -, depths', -, hrest⟩ := wellFormed_cons h
    rcases List.mem_cons.mp he with rfl | he
    · exact hproper
    · exact ih hrest he

end Tokens

end JavaScript
