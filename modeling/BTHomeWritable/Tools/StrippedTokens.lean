import BTHomeWritable.Tools.StripComments
import Mathlib.Data.List.SplitBy

/-!
# When stripping keeps the tokens

The scanner reads quotes, not substitutions, looks for the end of a block
comment from its first slash on, and ends a line comment at a line feed only.
The clean-up treats the lines within literals as it treats the others, and
splits lines where JavaScript does not.  And a comment that alone keeps two
tokens apart leaves nothing in its place.  `Preservable` says that a source has
none of this in it, and `preserved` that then its tokens are what remains.

The argument goes from the elements of the source over those without comments
(`uncommented`) to those that the clean-up leaves (`tidyElements`,
`trimElements`): the text of each is what the program computes, each is well
formed, and `Kept` relates the gaps of the source to the gaps of the outcome.
-/

namespace BTHomeWritable.Tools.StripComments

open JavaScript

/-! ## The condition -/

/-- The mode after a text that is copied whole; none if a comment begins in it. -/
def copies : Mode → List Char → Option Mode
  | mode, [] => some mode
  | mode, c :: rest =>
    if mode = .code ∧ c = '/' ∧ (rest.head? = some '/' ∨ rest.head? = some '*') then none
    else copies (mode.copied c) rest

def atFeed : List Element → Bool
  | [] => true
  | .newline c :: rest => c == '\n' || (c == '\r' && rest.head? == some (.newline '\n'))
  | _ => false

/-- The scanner meets the comments, and nothing else, as comments. -/
def follows : Mode → List Element → Bool
  | _, [] => true
  | mode, .lineComment _ :: rest => mode == .code && atFeed rest && follows .code rest
  | mode, .blockComment body :: rest =>
    mode == .code && body.head? != some '/' && follows .code rest
  | mode, e :: rest =>
    match copies mode e.text with
    | none => false
    | some mode' => follows mode' rest

/-- No line of the text ends in blanks or consists of them, and line feeds are what ends its
lines. -/
def steady : List Char → Bool
  | [] => true
  | c :: rest => (!isSpace c || (!endsLine rest && (!isBoundary c || c == '\n'))) && steady rest

/-- White space that is kept. -/
def blank : Element → Bool
  | .space _ => true
  | .newline _ => true
  | _ => false

/-- White space that the clean-up makes a line end of. -/
def breaks : Element → Bool
  | .newline _ => true
  | .space c => isBoundary c
  | _ => false

/-- A literal, or runs that only comments keep apart. -/
inductive Group where
  | runs (parts : List (List Char))
  | literal (text : List Char)

/-- A run before the groups of the rest of a source, with the gap between. -/
def addRun (chars : List Char) (gap : List Element) :
    List (Group × List Element) → List (Group × List Element)
  | (.runs parts, gap') :: rest =>
    if gap.any blank then (.runs [chars], gap) :: (.runs parts, gap') :: rest
    else (.runs (chars :: parts), gap') :: rest
  | rest => (.runs [chars], gap) :: rest

def groups : List (Piece × List Element) → List (Group × List Element)
  | [] => []
  | (.literal text, gap) :: rest => (.literal text, gap) :: groups rest
  | (.run chars, gap) :: rest => addRun chars gap (groups rest)

section Condition

variable (rules : Rules)

/-- Between pieces there are line ends where the clean-up leaves some, as far as they matter. -/
def gapsAgree (before : List Token) : List (Piece × List Element) → Bool
  | [] => true
  | (piece, gap) :: rest =>
    let now := before ++ piece.tokens rules
    let after := bareTokens rules rest
    let line := rules.lineEnd now after (gap.any Element.endsLine)
    line == rules.lineEnd now after (gap.any breaks) && gapsAgree (now ++ line) rest

/-- Runs that are put together divide into the same tokens. -/
def Group.joins : Group → Bool
  | .runs parts => rules.words parts.flatten == parts.flatMap rules.words
  | .literal _ => true

/-- The source is one whose tokens the program keeps. -/
structure Preservable (source : Source) : Prop where
  follows : follows .code source.elements
  steady : ∀ e ∈ source.elements, e.isLiteral → steady e.text
  gaps : gapsAgree rules [] (layout source.elements).2
  joined : ∀ g ∈ groups (layout source.elements).2, g.1.joins rules

/-- Comments are removed and nothing else, and doing so again changes nothing. -/
structure Preserved (source : Source) : Prop where
  outcome : ∃ out : Source, stripComments source.text = out.text ∧
    (∀ e ∈ out.elements, e.isComment = false) ∧ out.tokens rules = source.tokens rules
  again : stripComments (stripComments source.text) = stripComments source.text

end Condition

/-! ## The elements without the comments -/

def dropReturn : List Element → List Element
  | .newline c :: rest => if c = '\r' then rest else .newline c :: rest
  | es => es

/-- With a line comment goes the carriage return after it. -/
def uncommented : List Element → List Element
  | [] => []
  | .lineComment _ :: rest => dropReturn (uncommented rest)
  | .blockComment _ :: rest => uncommented rest
  | e :: rest => e :: uncommented rest

section Uncommented

variable {depths : List ℕ} {mode : Mode} {e : Element} {es rest : List Element}

theorem uncommented_cons (he : e.isComment = false) :
    uncommented (e :: es) = e :: uncommented es := by
  cases e <;> first | rfl | cases he

theorem follows_cons (he : e.isComment = false) (h : follows mode (e :: es)) :
    ∃ mode', copies mode e.text = some mode' ∧ follows mode' es := by
  have hfollows : follows mode (e :: es) =
      match copies mode e.text with
      | none => false
      | some mode' => follows mode' es := by
    cases e <;> first | rfl | cases he
  rw [hfollows] at h
  cases hcopies : copies mode e.text with
  | none => simp [hcopies] at h
  | some mode' =>
    rw [hcopies] at h
    exact ⟨mode', rfl, h⟩

/-- What follows a line comment keeps its line feed. -/
theorem uncommented_of_atFeed (h : atFeed es) :
    es = [] ∨ (∃ rest, es = .newline '\n' :: rest ∧
      dropReturn (uncommented es) = .newline '\n' :: uncommented rest) ∨
    ∃ rest, es = .newline '\r' :: .newline '\n' :: rest ∧
      dropReturn (uncommented es) = .newline '\n' :: uncommented rest := by
  cases es with
  | nil => exact .inl rfl
  | cons e es =>
    cases e with
    | newline c =>
      simp only [atFeed, Bool.or_eq_true, Bool.and_eq_true, beq_iff_eq] at h
      rcases h with rfl | ⟨rfl, hhead⟩
      · exact .inr (.inl ⟨es, rfl, rfl⟩)
      · obtain ⟨rest, rfl⟩ := List.head?_eq_some_iff.mp hhead
        exact .inr (.inr ⟨rest, rfl, rfl⟩)
    | _ => simp [atFeed] at h

theorem mem_of_mem_uncommented (h : e ∈ uncommented es) : e ∈ es ∧ e.isComment = false := by
  induction es with
  | nil => simp [uncommented] at h
  | cons d es ih =>
    cases hd : d.isComment with
    | false =>
      rw [uncommented_cons hd] at h
      rcases List.mem_cons.mp h with rfl | h
      · exact ⟨List.mem_cons_self, hd⟩
      · exact ⟨List.mem_cons_of_mem _ (ih h).1, (ih h).2⟩
    | true =>
      have hrest : e ∈ uncommented es := by
        cases d with
        | blockComment body => exact h
        | lineComment body =>
          rw [uncommented] at h
          generalize uncommented es = us at h
          unfold dropReturn at h
          split at h
          · split at h
            · exact List.mem_cons_of_mem _ h
            · exact h
          · exact h
        | _ => cases hd
      exact ⟨List.mem_cons_of_mem _ (ih hrest).1, (ih hrest).2⟩

theorem afterSlash_uncommented (h : afterSlash es = false) :
    afterSlash (uncommented es) = false := by
  cases es with
  | nil => rfl
  | cons e es => cases e <;> first | exact h | cases h

theorem wellFormed_uncommented (h : wellFormed depths es) :
    wellFormed depths (uncommented es) := by
  induction es generalizing depths with
  | nil => exact h
  | cons e es ih =>
    obtain ⟨hproper, hfits, depths', hafter, hrest⟩ := wellFormed_cons h
    cases e with
    | lineComment body =>
      obtain rfl : depths = depths' := Option.some.inj hafter
      rw [uncommented]
      have hwf := ih hrest
      generalize uncommented es = us at hwf ⊢
      unfold dropReturn
      split
      · split
        · obtain ⟨-, -, depths', hafter, hwf⟩ := wellFormed_cons hwf
          obtain rfl := Option.some.inj hafter
          exact hwf
        · exact hwf
      · exact hwf
    | blockComment body =>
      obtain rfl : depths = depths' := Option.some.inj hafter
      exact ih hrest
    | mark c =>
      have hslash : Element.fits (.mark c) (uncommented es) := by
        simp only [Element.fits, Bool.not_eq_true', Bool.and_eq_false_iff] at hfits ⊢
        exact hfits.imp_right afterSlash_uncommented
      simp only [uncommented, wellFormed, hproper, hslash, hafter, Bool.true_and, ih hrest]
    | _ =>
      simp only [uncommented, wellFormed, hproper, hafter, Element.fits, Bool.true_and, ih hrest]

end Uncommented

/-! ## The scanner -/

/-- A mode in which the scanner copies. -/
def Mode.reading : Mode → Bool
  | .code => true
  | .quoted quote => isQuote quote
  | .escaped quote => isQuote quote
  | _ => false

section Scanner

variable {depths : List ℕ} {mode mode' : Mode} {e : Element} {es rest : List Element}
  {t s : List Char}

theorem reading_copied (h : mode.reading) (c : Char) : (mode.copied c).reading := by
  cases mode with
  | code =>
    have hcopied : Mode.code.copied c = if isQuote c then .quoted c else .code := rfl
    rw [hcopied]
    split
    · assumption
    · rfl
  | quoted quote =>
    rw [Mode.copied]
    split
    · exact h
    · split
      · rfl
      · exact h
  | escaped quote => exact h
  | _ => cases h

theorem scanFrom_copied (hmode : mode.reading) {c : Char}
    (h : ¬ (mode = .code ∧ c = '/' ∧ (s.head? = some '/' ∨ s.head? = some '*'))) :
    scanFrom mode (c :: s) = c :: scanFrom (mode.copied c) s := by
  cases mode with
  | code =>
    have hline : ¬ (c = '/' ∧ s.head? = some '/') := fun ⟨hc, hs⟩ => h ⟨rfl, hc, .inl hs⟩
    have hblock : ¬ (c = '/' ∧ s.head? = some '*') := fun ⟨hc, hs⟩ => h ⟨rfl, hc, .inr hs⟩
    rw [scanFrom, if_neg hline, if_neg hblock]
  | quoted quote => rfl
  | escaped quote => rfl
  | _ => cases hmode

/-- A text that is copied, before one that does not make a comment of its last character. -/
theorem scanFrom_append (hmode : mode.reading) (h : copies mode t = some mode')
    (hend : t.getLast? = some '/' → s.head? ≠ some '/' ∧ s.head? ≠ some '*') :
    scanFrom mode (t ++ s) = t ++ scanFrom mode' s ∧ mode'.reading := by
  induction t generalizing mode with
  | nil =>
    obtain rfl : mode = mode' := Option.some.inj h
    exact ⟨rfl, hmode⟩
  | cons c t ih =>
    rw [copies] at h
    split at h
    · cases h
    · next hinside =>
      have hnext : ¬ (mode = .code ∧ c = '/' ∧
          ((t ++ s).head? = some '/' ∨ (t ++ s).head? = some '*')) := by
        rintro ⟨hcode, rfl, hhead⟩
        cases t with
        | nil => exact hhead.elim (hend rfl).1 (hend rfl).2
        | cons d t => exact hinside ⟨hcode, rfl, hhead⟩
      have hlast : t.getLast? = some '/' → s.head? ≠ some '/' ∧ s.head? ≠ some '*' := by
        intro ht
        apply hend
        rw [List.getLast?_cons, ht]
        rfl
      obtain ⟨hscan, hreading⟩ := ih (reading_copied hmode c) h hlast
      rw [List.cons_append, scanFrom_copied hmode hnext, hscan]
      exact ⟨rfl, hreading⟩

/-- Only a slash ends in a slash, and the grammar keeps comments from beginning with it. -/
theorem head_of_getLast (h : wellFormed depths (e :: es)) (he : e.isComment = false)
    (hlast : e.text.getLast? = some '/') :
    (text es).head? ≠ some '/' ∧ (text es).head? ≠ some '*' := by
  obtain ⟨hproper, hfits, depths', hafter, hrest⟩ := wellFormed_cons h
  cases e with
  | mark c =>
    obtain rfl : c = '/' := by simpa [Element.text] using hlast
    have hslash : afterSlash es = false := by simpa [Element.fits] using hfits
    constructor
    · intro hhead
      rw [afterSlash_of_head (.inl rfl) hrest hhead] at hslash
      cases hslash
    · intro hhead
      rw [afterSlash_of_head (.inr rfl) hrest hhead] at hslash
      cases hslash
  | space c =>
    obtain rfl : c = '/' := by simpa [Element.text] using hlast
    exact absurd hproper (by decide)
  | newline c =>
    obtain rfl : c = '/' := by simpa [Element.text] using hlast
    exact absurd hproper (by decide)
  | string quote body =>
    obtain rfl : quote = '/' := by
      rw [Element.text, List.getLast?_concat] at hlast
      exact Option.some.inj hlast
    simp only [Element.proper, Bool.and_eq_true, Bool.or_eq_true, beq_iff_eq] at hproper
    exact absurd hproper.1 (by decide)
  | template head last body =>
    rw [Element.text, List.getLast?_append] at hlast
    cases last <;> exact absurd hlast (by simp [templateClose, backtick])
  | _ => cases he

theorem afterClose_body {body : List Char} (h : blockBody body) :
    afterClose (body ++ '*' :: '/' :: s) = s := by
  induction body with
  | nil => simp [afterClose]
  | cons c body ih =>
    simp only [blockBody, Bool.and_eq_true, Bool.not_eq_true', Bool.and_eq_false_iff,
      beq_eq_false_iff_ne] at h
    obtain ⟨hclose, hbody⟩ := h
    have hinside : ¬ (c = '*' ∧ (body ++ '*' :: '/' :: s).head? = some '/') := by
      rintro ⟨rfl, hslash⟩
      cases body with
      | nil => exact absurd hslash (by simp)
      | cons d body => exact hclose.resolve_left (not_not_intro rfl) hslash
    rw [List.cons_append, afterClose, if_neg hinside, ih hbody]

/-- A block comment that does not begin with its end. -/
theorem scanFrom_blockComment {body : List Char} (h : blockBody body)
    (hslash : body.head? ≠ some '/') :
    scanFrom .code ((Element.blockComment body).text ++ s) = scanFrom .code s := by
  have hstar : afterClose ('*' :: (body ++ '*' :: '/' :: s)) = s := by
    have hhead : ¬ ('*' = '*' ∧ (body ++ '*' :: '/' :: s).head? = some '/') := by
      rintro ⟨-, hhead⟩
      cases body with
      | nil => exact absurd hhead (by simp)
      | cons d body => exact hslash hhead
    rw [afterClose, if_neg hhead, afterClose_body h]
  have hnext : ¬ ('/' = '/' ∧ ('*' :: (body ++ '*' :: '/' :: s)).head? = some '/') := by simp
  simp only [Element.text, List.cons_append, List.append_assoc, List.nil_append]
  rw [scanFrom, if_neg hnext, if_pos ⟨rfl, rfl⟩, (scanFrom_block _).1, hstar]

theorem scanFrom_lineComment {body : List Char} (h : body.any isLineTerminator = false) :
    scanFrom .code ((Element.lineComment body).text ++ s) = scanFrom .line s := by
  have hbody : scanFrom .line (body ++ s) = scanFrom .line s := by
    induction body with
    | nil => rfl
    | cons c body ih =>
      rw [List.any_cons, Bool.or_eq_false_iff] at h
      have hc : c ≠ '\n' := by
        rintro rfl
        exact absurd h.1 (by decide)
      rw [List.cons_append, scanFrom, if_neg hc, ih h.2]
  simp only [Element.text, List.cons_append]
  rw [scanFrom, if_pos ⟨rfl, rfl⟩, scanFrom, if_neg (by decide), hbody]

/-- The scanner takes out the comments, where it follows the source. -/
theorem scanFrom_text (hmode : mode.reading) (hwf : wellFormed depths es)
    (h : follows mode es) : scanFrom mode (text es) = text (uncommented es) := by
  induction es generalizing depths mode with
  | nil => cases mode <;> rfl
  | cons e es ih =>
    obtain ⟨hproper, hfits, depths', hafter, hrest⟩ := wellFormed_cons hwf
    cases he : e.isComment with
    | false =>
      obtain ⟨mode', hcopies, hfollows⟩ := follows_cons he h
      obtain ⟨hscan, hreading⟩ :=
        scanFrom_append hmode hcopies (head_of_getLast hwf he)
      rw [text_cons, hscan, ih hreading hrest hfollows, uncommented_cons he, text_cons]
    | true =>
      cases e with
      | blockComment body =>
        rw [follows, Bool.and_eq_true, Bool.and_eq_true, beq_iff_eq, bne_iff_ne] at h
        obtain ⟨⟨rfl, hslash⟩, hfollows⟩ := h
        rw [text_cons, scanFrom_blockComment hproper hslash, ih rfl hrest hfollows]
        rfl
      | lineComment body =>
        rw [follows, Bool.and_eq_true, Bool.and_eq_true, beq_iff_eq] at h
        obtain ⟨⟨rfl, hfeed⟩, hfollows⟩ := h
        have hbody : body.any isLineTerminator = false := by simpa [Element.proper] using hproper
        have hcode := ih rfl hrest hfollows
        rw [text_cons, scanFrom_lineComment hbody, uncommented]
        rcases uncommented_of_atFeed hfeed with rfl | ⟨rest, rfl, hdrop⟩ | ⟨rest, rfl, hdrop⟩
        · rfl
        · -- copied in either mode
          rw [hdrop]
          exact hcode
        · -- the comment takes the carriage return along
          rw [hdrop]
          exact List.tail_eq_of_cons_eq hcode
      | _ => cases he

end Scanner

/-! ## The clean-up -/

def elementsEndLine : List Element → Bool
  | [] => true
  | .newline _ :: _ => true
  | .space c :: rest => isSpace c && (isBoundary c || elementsEndLine rest)
  | _ => false

/-- `tidy`, for elements. -/
def tidyElements : List Element → List Element
  | [] => [.newline '\n']
  | .newline _ :: rest =>
    if elementsEndLine rest then tidyElements rest else .newline '\n' :: tidyElements rest
  | .space c :: rest =>
    if isSpace c then
      if elementsEndLine rest then tidyElements rest
      else (if isBoundary c then .newline '\n' else .space c) :: tidyElements rest
    else .space c :: tidyElements rest
  | e :: rest => e :: tidyElements rest

def trimElements : List Element → List Element
  | .newline c :: e :: rest => if c = '\n' then e :: rest else .newline c :: e :: rest
  | es => es

section Cleaning

variable {depths : List ℕ} {mode mode' : Mode} {e : Element} {es rest : List Element}
  {t s : List Char} {c : Char}

theorem isSpace_of_mark (h : Mark c) : isSpace c = false := by
  have hwhite := h.white
  have hline := h.line
  have hcontrol := h.control
  simp only [isWhiteSpace, isLineTerminator, isControl, Bool.or_eq_false_iff,
    Bool.and_eq_false_iff, beq_eq_false_iff_ne, decide_eq_false_iff_not] at hwhite hline hcontrol
  simp only [isSpace, Bool.or_eq_false_iff, Bool.and_eq_false_iff, beq_eq_false_iff_ne,
    decide_eq_false_iff_not]
  omega

theorem isBoundary_of_isLineTerminator (h : isLineTerminator c) : isBoundary c = true := by
  simp only [isLineTerminator, Bool.or_eq_true, beq_iff_eq] at h
  simp only [isBoundary, Bool.or_eq_true, Bool.and_eq_true, decide_eq_true_eq, beq_iff_eq]
  omega

/-- A literal begins and ends with characters that no clean-up takes away. -/
theorem literal_ends (he : e.isLiteral) (hproper : e.proper) :
    (∃ c rest, e.text = c :: rest ∧ isSpace c = false ∧ isWhiteSpace c = false ∧ c ≠ '\n') ∧
      ∀ c, e.text.getLast? = some c → isSpace c = false := by
  cases e with
  | string quote body =>
    simp only [Element.proper, Bool.and_eq_true, Bool.or_eq_true, beq_iff_eq] at hproper
    have hquote : isSpace quote = false ∧ isWhiteSpace quote = false ∧ quote ≠ '\n' := by
      rcases hproper.1 with rfl | rfl <;> decide
    refine ⟨⟨quote, body ++ [quote], rfl, hquote⟩, fun c hc => ?_⟩
    rw [Element.text, List.getLast?_concat] at hc
    obtain rfl := Option.some.inj hc
    exact hquote.1
  | template head last body =>
    have hopen : isSpace (templateOpen head) = false ∧ isWhiteSpace (templateOpen head) = false ∧
        templateOpen head ≠ '\n' := by
      cases head <;> decide
    refine ⟨⟨templateOpen head, body ++ templateClose last, rfl, hopen⟩, fun c hc => ?_⟩
    rw [Element.text, List.getLast?_append] at hc
    cases last with
    | true =>
      obtain rfl : backtick = c := by simpa [templateClose] using hc
      decide
    | false =>
      obtain rfl : '{' = c := by simpa [templateClose] using hc
      decide
  | _ => cases he

theorem endsLine_append (hlast : ∀ c, t.getLast? = some c → isSpace c = false) (ht : t ≠ []) :
    endsLine (t ++ s) = endsLine t := by
  induction t with
  | nil => exact absurd rfl ht
  | cons c t ih =>
    cases t with
    | nil => simp [endsLine, hlast c rfl]
    | cons d t =>
      have hrest := ih (fun c hc => hlast c (by rw [List.getLast?_cons, hc]; rfl))
        (List.cons_ne_nil d t)
      rw [List.cons_append, endsLine, hrest]
      rfl

/-- Text that is steady is left as it is. -/
theorem tidy_append (hsteady : steady t) (hlast : ∀ c, t.getLast? = some c → isSpace c = false) :
    tidy (t ++ s) = t ++ tidy s := by
  induction t with
  | nil => rfl
  | cons c t ih =>
    rw [steady, Bool.and_eq_true] at hsteady
    obtain ⟨hc, hrest⟩ := hsteady
    have htidy := ih hrest fun d hd => hlast d (by rw [List.getLast?_cons, hd]; rfl)
    rw [List.cons_append, tidy, htidy]
    by_cases hspace : isSpace c = true
    · have ht : t ≠ [] := by
        rintro rfl
        rw [hlast c rfl] at hspace
        cases hspace
      have hends : endsLine (t ++ s) = endsLine t :=
        endsLine_append (fun d hd => hlast d (by rw [List.getLast?_cons, hd]; rfl)) ht
      simp only [hspace, Bool.not_true, Bool.false_or, Bool.and_eq_true, Bool.not_eq_true',
        Bool.or_eq_true, beq_iff_eq] at hc
      obtain ⟨hmore, hboundary⟩ := hc
      rw [if_pos hspace, hends, hmore]
      by_cases hb : isBoundary c = true
      · obtain rfl := hboundary.resolve_left (by simp [hb])
        simp [hb]
      · simp [hb]
    · rw [if_neg hspace]
      rfl

/-- An element is white space that the clean-up may take away, or it stays. -/
theorem tidyElements_stays (he : blank e = false) : tidyElements (e :: es) = e :: tidyElements es ∧
    elementsEndLine (e :: es) = false := by
  cases e <;> first | exact ⟨rfl, rfl⟩ | cases he

theorem endsLine_text (hwf : wellFormed depths es) (hcomments : ∀ e ∈ es, e.isComment = false) :
    endsLine (text es) = elementsEndLine es := by
  induction es generalizing depths with
  | nil => rfl
  | cons e es ih =>
    obtain ⟨hproper, -, depths', -, hrest⟩ := wellFormed_cons hwf
    have hes := ih hrest fun d hd => hcomments d (List.mem_cons_of_mem _ hd)
    have he := hcomments e List.mem_cons_self
    have hliteral : e.isLiteral → endsLine (text (e :: es)) = false := by
      intro hlit
      obtain ⟨⟨c, rest, htext, hc, -⟩, -⟩ := literal_ends hlit hproper
      rw [text_cons, htext, List.cons_append, endsLine, hc, Bool.false_and]
    cases e with
    | mark c =>
      have hc : isSpace c = false := isSpace_of_mark (isMark_iff.mp hproper)
      rw [text_cons, Element.text, List.singleton_append, endsLine, hc]
      rfl
    | space c =>
      rw [text_cons, Element.text, List.singleton_append, endsLine, hes]
      rfl
    | newline c =>
      have hc : isBoundary c = true := isBoundary_of_isLineTerminator hproper
      rw [text_cons, Element.text, List.singleton_append, endsLine, hc, isSpace_of_isBoundary hc]
      rfl
    | string quote body => exact hliteral rfl
    | template head last body => exact hliteral rfl
    | _ => cases he

theorem text_tidyElements (hwf : wellFormed depths es) (hcomments : ∀ e ∈ es, e.isComment = false)
    (hsteady : ∀ e ∈ es, e.isLiteral → steady e.text) :
    text (tidyElements es) = tidy (text es) := by
  induction es generalizing depths with
  | nil => rfl
  | cons e es ih =>
    obtain ⟨hproper, -, depths', -, hrest⟩ := wellFormed_cons hwf
    have hcommentsRest : ∀ d ∈ es, d.isComment = false :=
      fun d hd => hcomments d (List.mem_cons_of_mem _ hd)
    have hes := ih hrest hcommentsRest fun d hd => hsteady d (List.mem_cons_of_mem _ hd)
    have hends := endsLine_text hrest hcommentsRest
    have he := hcomments e List.mem_cons_self
    -- lines within a literal do not end before it does, so the clean-up passes it whole
    have hliteral : e.isLiteral → e.text ++ tidy (text es) = tidy (text (e :: es)) := by
      intro hlit
      rw [text_cons, tidy_append (hsteady e List.mem_cons_self hlit) (literal_ends hlit hproper).2]
    cases e with
    | mark c =>
      have hc : ¬ isSpace c = true := by simp [isSpace_of_mark (isMark_iff.mp hproper)]
      rw [(tidyElements_stays rfl).1, text_cons, text_cons, hes, Element.text,
        List.singleton_append, List.singleton_append, tidy, if_neg hc]
    | space c =>
      rw [tidyElements, text_cons, Element.text, List.singleton_append, tidy, hends]
      by_cases hc : isSpace c = true
      · rw [if_pos hc, if_pos hc]
        by_cases hline : elementsEndLine es = true
        · rw [if_pos hline, if_pos hline, hes]
        · rw [if_neg hline, if_neg hline, text_cons, hes]
          split <;> rfl
      · rw [if_neg hc, if_neg hc, text_cons, hes]
        rfl
    | newline c =>
      have hc : isBoundary c = true := isBoundary_of_isLineTerminator hproper
      rw [tidyElements, text_cons, Element.text, List.singleton_append, tidy, hends,
        if_pos (isSpace_of_isBoundary hc), if_pos hc]
      by_cases hline : elementsEndLine es = true
      · rw [if_pos hline, if_pos hline, hes]
      · rw [if_neg hline, if_neg hline, text_cons, hes]
        rfl
    | string quote body =>
      rw [(tidyElements_stays rfl).1, text_cons, hes, hliteral rfl]
    | template head last body =>
      rw [(tidyElements_stays rfl).1, text_cons, hes, hliteral rfl]
    | _ => cases he

/-- Where a line ends the clean-up leaves its end. -/
theorem tidyElements_of_endsLine (h : elementsEndLine es) :
    ∃ rest, tidyElements es = .newline '\n' :: rest := by
  induction es with
  | nil => exact ⟨[], rfl⟩
  | cons e es ih =>
    cases e with
    | newline c =>
      by_cases hline : elementsEndLine es = true
      · rw [tidyElements, if_pos hline]
        exact ih hline
      · rw [tidyElements, if_neg hline]
        exact ⟨_, rfl⟩
    | space c =>
      rw [elementsEndLine, Bool.and_eq_true, Bool.or_eq_true] at h
      obtain ⟨hc, h⟩ := h
      by_cases hline : elementsEndLine es = true
      · rw [tidyElements, if_pos hc, if_pos hline]
        exact ih hline
      · rw [tidyElements, if_pos hc, if_neg hline, if_pos (h.resolve_right hline)]
        exact ⟨_, rfl⟩
    | _ => simp [elementsEndLine] at h

/-- White space goes where the line ends before anything else, and elsewhere something is left in
its place. -/
theorem tidyElements_blank (he : blank e) (hproper : e.proper) (es : List Element) :
    (elementsEndLine es ∧ tidyElements (e :: es) = tidyElements es) ∨
      ∃ e', tidyElements (e :: es) = e' :: tidyElements es ∧ blank e' ∧ e'.proper ∧
        e'.endsLine = breaks e := by
  cases e with
  | newline c =>
    by_cases hline : elementsEndLine es = true
    · exact .inl ⟨hline, by rw [tidyElements, if_pos hline]⟩
    · exact .inr ⟨.newline '\n', by rw [tidyElements, if_neg hline], rfl, rfl, rfl⟩
  | space c =>
    by_cases hc : isSpace c = true
    · by_cases hline : elementsEndLine es = true
      · exact .inl ⟨hline, by rw [tidyElements, if_pos hc, if_pos hline]⟩
      · refine .inr ⟨if isBoundary c then .newline '\n' else .space c,
          by rw [tidyElements, if_pos hc, if_neg hline], ?_⟩
        by_cases hb : isBoundary c = true
        · rw [if_pos hb]
          exact ⟨rfl, rfl, hb.symm⟩
        · rw [if_neg hb]
          exact ⟨rfl, hproper, (Bool.eq_false_iff.mpr hb).symm⟩
    · have hb : isBoundary c = false :=
        Bool.eq_false_iff.mpr fun h => hc (isSpace_of_isBoundary h)
      exact .inr ⟨.space c, by rw [tidyElements, if_neg hc], rfl, hproper, hb.symm⟩
  | _ => cases he

theorem wellFormed_blank (he : blank e) :
    wellFormed depths (e :: es) = (e.proper && wellFormed depths es) := by
  cases e with
  | space c => simp [wellFormed, Element.fits, Element.after]
  | newline c => simp [wellFormed, Element.fits, Element.after]
  | _ => cases he

theorem afterSlash_tidyElements (hwf : wellFormed depths es) (h : afterSlash es = false) :
    afterSlash (tidyElements es) = false := by
  cases es with
  | nil => rfl
  | cons e es =>
    cases he : blank e with
    | true =>
      rcases tidyElements_blank he (wellFormed_cons hwf).1 es with
        ⟨hline, htidy⟩ | ⟨e', htidy, hblank, -⟩
      · obtain ⟨rest, hrest⟩ := tidyElements_of_endsLine hline
        rw [htidy, hrest]
        rfl
      · rw [htidy]
        cases e' <;> first | rfl | cases hblank
    | false =>
      rw [(tidyElements_stays he).1]
      cases e <;> exact h

theorem wellFormed_tidyElements (hwf : wellFormed depths es)
    (hcomments : ∀ e ∈ es, e.isComment = false) : wellFormed depths (tidyElements es) := by
  induction es generalizing depths with
  | nil =>
    rw [tidyElements, wellFormed_blank rfl]
    exact hwf
  | cons e es ih =>
    have hcommentsRest : ∀ d ∈ es, d.isComment = false :=
      fun d hd => hcomments d (List.mem_cons_of_mem _ hd)
    cases hblank : blank e with
    | true =>
      rw [wellFormed_blank hblank, Bool.and_eq_true] at hwf
      obtain ⟨hproper, hrest⟩ := hwf
      rcases tidyElements_blank hblank hproper es with
        ⟨-, htidy⟩ | ⟨e', htidy, hblank', hproper', -⟩
      · rw [htidy]
        exact ih hrest hcommentsRest
      · rw [htidy, wellFormed_blank hblank', hproper', ih hrest hcommentsRest]
        rfl
    | false =>
      obtain ⟨hproper, hfits, depths', hafter, hrest⟩ := wellFormed_cons hwf
      have hfits' : e.fits (tidyElements es) := by
        cases e with
        | mark c =>
          simp only [Element.fits, Bool.not_eq_true', Bool.and_eq_false_iff] at hfits ⊢
          exact hfits.imp_right (afterSlash_tidyElements hrest)
        | lineComment body => cases hcomments _ List.mem_cons_self
        | _ => rfl
      rw [(tidyElements_stays hblank).1, wellFormed, hproper, hfits', hafter, Bool.true_and]
      exact ih hrest hcommentsRest

theorem comments_tidyElements (hwf : wellFormed depths es)
    (hcomments : ∀ e ∈ es, e.isComment = false) : ∀ e ∈ tidyElements es, e.isComment = false := by
  induction es generalizing depths with
  | nil =>
    intro e he
    obtain rfl := List.mem_singleton.mp he
    rfl
  | cons d es ih =>
    obtain ⟨hproper, -, depths', -, hwf'⟩ := wellFormed_cons hwf
    have hrest := ih hwf' fun e he => hcomments e (List.mem_cons_of_mem _ he)
    have hcons : ∀ e', e'.isComment = false → tidyElements (d :: es) = e' :: tidyElements es →
        ∀ e ∈ tidyElements (d :: es), e.isComment = false := by
      intro e' he' htidy e he
      rw [htidy] at he
      rcases List.mem_cons.mp he with rfl | he
      · exact he'
      · exact hrest e he
    cases hblank : blank d with
    | true =>
      rcases tidyElements_blank hblank hproper es with ⟨-, htidy⟩ | ⟨e', htidy, hblank', -⟩
      · rw [htidy]
        exact hrest
      · exact hcons e' (by cases e' <;> first | rfl | cases hblank') htidy
    | false => exact hcons d (hcomments d List.mem_cons_self) (tidyElements_stays hblank).1

/-! ### The scanner on what is left -/

/-- The mode after white space. -/
def Mode.blanked : Mode → Mode
  | .escaped quote => .quoted quote
  | mode => mode

theorem blank_text (he : blank e) (hproper : e.proper) :
    ∃ c, e.text = [c] ∧ c ≠ '/' ∧ c ≠ backslash ∧ isQuote c = false := by
  have hwhite : ∀ c, isWhiteSpace c ∨ isLineTerminator c →
      c ≠ '/' ∧ c ≠ backslash ∧ isQuote c = false := by
    intro c hc
    refine ⟨?_, ?_, ?_⟩
    · rintro rfl
      exact absurd hc (by decide)
    · rintro rfl
      exact absurd hc (by decide)
    · apply Bool.eq_false_iff.mpr
      intro hquote
      simp only [isQuote, Bool.or_eq_true, beq_iff_eq] at hquote
      rcases hquote with (rfl | rfl) | rfl <;> exact absurd hc (by decide)
  cases e with
  | space c => exact ⟨c, rfl, hwhite c (.inl hproper)⟩
  | newline c => exact ⟨c, rfl, hwhite c (.inr hproper)⟩
  | _ => cases he

theorem copies_blank (hmode : mode.reading) (he : blank e) (hproper : e.proper) :
    copies mode e.text = some mode.blanked := by
  obtain ⟨c, htext, hslash, hback, hquote⟩ := blank_text he hproper
  rw [htext, copies, if_neg fun h => hslash h.2.1, copies]
  cases mode with
  | code => simp [Mode.copied, hquote, Mode.blanked]
  | quoted quote =>
    have hne : c ≠ quote := by
      rintro rfl
      rw [Mode.reading, hquote] at hmode
      cases hmode
    simp [Mode.copied, hback, hne, Mode.blanked]
  | escaped quote => rfl
  | _ => cases hmode

theorem follows_blank (hmode : mode.reading) (he : blank e) (hproper : e.proper) :
    follows mode (e :: es) = follows mode.blanked es := by
  have hcopies := copies_blank hmode he hproper
  cases e with
  | space c => simp only [follows, hcopies]
  | newline c => simp only [follows, hcopies]
  | _ => cases he

theorem blanked_blanked (mode : Mode) : mode.blanked.blanked = mode.blanked := by
  cases mode <;> rfl

theorem reading_blanked (h : mode.reading) : mode.blanked.reading := by
  cases mode <;> exact h

theorem follows_tidyElements (hmode : mode.reading) (hwf : wellFormed depths es)
    (hcomments : ∀ e ∈ es, e.isComment = false) (h : follows mode es) :
    follows mode (tidyElements es) := by
  induction es generalizing depths mode with
  | nil =>
    rw [tidyElements, follows_blank hmode rfl rfl]
    rfl
  | cons e es ih =>
    obtain ⟨hproper, -, depths', -, hrest⟩ := wellFormed_cons hwf
    have hcommentsRest : ∀ d ∈ es, d.isComment = false :=
      fun d hd => hcomments d (List.mem_cons_of_mem _ hd)
    cases hblank : blank e with
    | true =>
      rw [follows_blank hmode hblank hproper] at h
      have hes := ih (reading_blanked hmode) hrest hcommentsRest h
      rcases tidyElements_blank hblank hproper es with
        ⟨hline, htidy⟩ | ⟨e', htidy, hblank', hproper', -⟩
      · -- the line end that stays is white space just as well
        obtain ⟨rest, hfeed⟩ := tidyElements_of_endsLine hline
        rw [hfeed, follows_blank (reading_blanked hmode) rfl rfl, blanked_blanked] at hes
        rw [htidy, hfeed, follows_blank hmode rfl rfl]
        exact hes
      · rw [htidy, follows_blank hmode hblank' hproper']
        exact hes
    | false =>
      have he := hcomments e List.mem_cons_self
      obtain ⟨mode', hcopies, hfollows⟩ := follows_cons he h
      have hreading : mode'.reading :=
        (scanFrom_append hmode hcopies (head_of_getLast hwf he)).2
      have hes := ih hreading hrest hcommentsRest hfollows
      rw [(tidyElements_stays hblank).1]
      cases e with
      | lineComment body => cases he
      | blockComment body => cases he
      | _ => simpa only [follows, hcopies] using hes

end Cleaning

/-! ## The tokens -/

def Group.piece : Group → Piece
  | .runs parts => .run parts.flatten
  | .literal text => .literal text

def Group.tokens (rules : Rules) : Group → List Token
  | .runs parts => (parts.flatMap rules.words).map .word
  | .literal text => [.literal text]

def bareGroups (rules : Rules) (gs : List (Group × List Element)) : List Token :=
  gs.flatMap fun g => g.1.tokens rules

/-- The tokens of groups, with the line ends that the clean-up makes. -/
def groupsFrom (rules : Rules) (before : List Token) : List (Group × List Element) → List Token
  | [] => before
  | (group, gap) :: rest =>
    let now := before ++ group.tokens rules
    groupsFrom rules (now ++ rules.lineEnd now (bareGroups rules rest) (gap.any breaks)) rest

/-- What is left of a layout: of each gap but the last there is something left if white space is in
it, and a line end if the clean-up makes one of it; and runs that nothing is left between are
one. -/
inductive Kept : List Element → List (Group × List Element) → Layout → Prop
  | nil (gap gap' : List Element) : Kept gap [] (gap', [])
  | cons {gap gap' next next' : List Element} {group : Group}
      {rest : List (Group × List Element)} {pieces : List (Piece × List Element)} :
      (gap.any blank = true ↔ gap' ≠ []) → gap.any breaks = gap'.any Element.endsLine →
      Kept next rest (next', pieces) →
      Kept gap ((group, next) :: rest) (gap', (group.piece, next') :: pieces)

section Tokens

variable {rules : Rules} {before : List Token} {depths : List ℕ} {mode : Mode}
  {e e' : Element} {es gap gap' : List Element} {l : Layout}
  {ps pieces : List (Piece × List Element)} {gs : List (Group × List Element)}

/-- A run joins the runs after it, unless white space or a literal is between. -/
theorem addRun_cases (chars : List Char) (gap : List Element) (gs : List (Group × List Element)) :
    (∃ parts gap' rest, gs = (.runs parts, gap') :: rest ∧ gap.any blank = false ∧
      addRun chars gap gs = (.runs (chars :: parts), gap') :: rest) ∨
    (addRun chars gap gs = (.runs [chars], gap) :: gs ∧
      (gap.any blank = true ∨ ∀ parts gap' rest, gs ≠ (.runs parts, gap') :: rest)) := by
  cases gs with
  | nil => exact .inr ⟨rfl, .inr fun _ _ _ h => nomatch h⟩
  | cons g rest =>
    obtain ⟨group, gap'⟩ := g
    cases group with
    | literal text => exact .inr ⟨rfl, .inr fun _ _ _ h => nomatch h⟩
    | runs parts =>
      rw [addRun]
      cases hblank : gap.any blank with
      | true => exact .inr ⟨rfl, .inl rfl⟩
      | false => exact .inl ⟨parts, gap', rest, rfl, rfl, rfl⟩

theorem any_breaks_of_blank (h : gap.any blank = false) : gap.any breaks = false := by
  rw [List.any_eq_false] at h ⊢
  intro e he hbreaks
  apply h e he
  cases e <;> first | rfl | cases hbreaks

@[simp] theorem bareGroups_cons (g : Group × List Element) (gs : List (Group × List Element)) :
    bareGroups rules (g :: gs) = g.1.tokens rules ++ bareGroups rules gs := List.flatMap_cons

theorem bareGroups_addRun (chars : List Char) (gap : List Element)
    (gs : List (Group × List Element)) : bareGroups rules (addRun chars gap gs) =
      (rules.words chars).map .word ++ bareGroups rules gs := by
  rcases addRun_cases chars gap gs with ⟨parts, gap', rest, rfl, -, hadd⟩ | ⟨hadd, -⟩ <;>
    simp [hadd, Group.tokens]

theorem bareGroups_groups (ps : List (Piece × List Element)) :
    bareGroups rules (groups ps) = bareTokens rules ps := by
  induction ps with
  | nil => rfl
  | cons p rest ih =>
    obtain ⟨piece, gap⟩ := p
    rw [bareTokens_cons, ← ih]
    cases piece with
    | literal text => rfl
    | run chars => exact bareGroups_addRun chars gap _

theorem groupsFrom_cons (before : List Token) (piece : Piece) (gap : List Element)
    (rest : List (Piece × List Element)) :
    groupsFrom rules before (groups ((piece, gap) :: rest)) =
      groupsFrom rules (before ++ piece.tokens rules ++
        rules.lineEnd (before ++ piece.tokens rules) (bareTokens rules rest) (gap.any breaks))
        (groups rest) := by
  cases piece with
  | literal text =>
    rw [groups, groupsFrom, bareGroups_groups]
    rfl
  | run chars =>
    rw [groups]
    rcases addRun_cases chars gap (groups rest) with
      ⟨parts, gap', others, hgroups, hblank, hadd⟩ | ⟨hadd, -⟩
    · -- nothing but comments, so no line end in the outcome
      rw [any_breaks_of_blank hblank, lineEnd_false, List.append_nil, hadd, hgroups]
      simp [groupsFrom, Group.tokens, Piece.tokens]
    · rw [hadd, groupsFrom, bareGroups_groups]
      simp [Group.tokens, Piece.tokens]

/-- The tokens of a source, when its line ends are where the clean-up leaves them. -/
theorem tokensFrom_eq (h : gapsAgree rules before ps) :
    tokensFrom rules before ps = groupsFrom rules before (groups ps) := by
  induction ps generalizing before with
  | nil => rfl
  | cons p rest ih =>
    simp only [gapsAgree, Bool.and_eq_true, beq_iff_eq] at h
    obtain ⟨hline, hrest⟩ := h
    have htokens := ih hrest
    rw [hline] at htokens
    rw [tokensFrom, hline, htokens, groupsFrom_cons]

theorem prefix_groupsFrom (before : List Token) (gs : List (Group × List Element)) :
    before <+: groupsFrom rules before gs := by
  induction gs generalizing before with
  | nil => exact List.prefix_refl before
  | cons g rest ih =>
    rw [groupsFrom, List.append_assoc]
    exact (List.prefix_append before _).trans (ih _)

theorem prefix_tokensFrom_cons (before : List Token) (piece : Piece) (gap : List Element)
    (rest : List (Piece × List Element)) :
    before ++ piece.tokens rules <+: tokensFrom rules before ((piece, gap) :: rest) :=
  (List.prefix_append _ _).trans (prefix_tokensFrom _ rest)

theorem prefix_groupsFrom_cons (before : List Token) (piece : Piece) (gap : List Element)
    (rest : List (Piece × List Element)) :
    before ++ piece.tokens rules <+: groupsFrom rules before (groups ((piece, gap) :: rest)) := by
  rw [groupsFrom_cons]
  exact (List.prefix_append _ _).trans (prefix_groupsFrom _ _)

/-- Whether a line end is before the tokens of a piece can be told from what comes out. -/
theorem lineEnd_unique {now after out : List Token} {ends ends' : Bool} {piece : Piece}
    (hpiece : piece.tokens rules ≠ [])
    (h : now ++ rules.lineEnd now after ends ++ piece.tokens rules <+: out)
    (h' : now ++ rules.lineEnd now after ends' ++ piece.tokens rules <+: out) :
    rules.lineEnd now after ends = rules.lineEnd now after ends' := by
  obtain ⟨token, more, htokens⟩ := List.exists_cons_of_ne_nil hpiece
  have htoken : token ≠ .lineEnd := by
    rintro rfl
    have hmem : Token.lineEnd ∈ piece.tokens rules := by
      rw [htokens]
      exact List.mem_cons_self
    cases isLineEnd_of_mem_piece hmem
  obtain ⟨tail, htail⟩ := h
  obtain ⟨tail', htail'⟩ := h'
  have hsame := htail.trans htail'.symm
  rw [htokens, List.append_assoc, List.append_assoc, List.append_assoc, List.append_assoc,
    List.append_cancel_left_eq] at hsame
  rcases lineEnd_cases rules now after ends with hl | hl <;>
    rcases lineEnd_cases rules now after ends' with hr | hr <;>
    rw [hl, hr] at hsame ⊢
  · exact absurd (List.cons.inj hsame).1 htoken
  · exact absurd (List.cons.inj hsame).1.symm htoken

/-- The same tokens come of the line ends only where they agree. -/
theorem gapsAgree_of_eq (hpieces : ∀ p ∈ ps, p.1.tokens rules ≠ [])
    (h : tokensFrom rules before ps = groupsFrom rules before (groups ps)) :
    gapsAgree rules before ps := by
  induction ps generalizing before with
  | nil => rfl
  | cons p rest ih =>
    obtain ⟨piece, gap⟩ := p
    rw [tokensFrom, groupsFrom_cons] at h
    have hline : rules.lineEnd (before ++ piece.tokens rules) (bareTokens rules rest)
          (gap.any Element.endsLine) =
        rules.lineEnd (before ++ piece.tokens rules) (bareTokens rules rest) (gap.any breaks) := by
      cases rest with
      | nil => simp [bareTokens]
      | cons next rest =>
        obtain ⟨next, gap'⟩ := next
        have hnext := hpieces (next, gap') (List.mem_cons_of_mem _ List.mem_cons_self)
        apply lineEnd_unique hnext (prefix_tokensFrom_cons _ next gap' rest)
        rw [h]
        exact prefix_groupsFrom_cons _ next gap' rest
    rw [gapsAgree]
    simp only [hline, beq_self_eq_true, Bool.true_and]
    rw [hline] at h
    exact ih (fun p hp => hpieces p (List.mem_cons_of_mem _ hp)) h

theorem tokens_piece {group : Group} (h : group.joins rules) :
    group.piece.tokens rules = group.tokens rules := by
  cases group with
  | runs parts =>
    have hjoins : rules.words parts.flatten = parts.flatMap rules.words := beq_iff_eq.mp h
    rw [Group.piece, Piece.tokens, Group.tokens, hjoins]
  | literal text => rfl

theorem Kept.bare (h : Kept gap gs l) (hjoins : ∀ g ∈ gs, g.1.joins rules) :
    bareTokens rules l.2 = bareGroups rules gs := by
  induction h with
  | nil => rfl
  | cons hblank hbreaks hrest ih =>
    rw [bareTokens_cons, bareGroups_cons, tokens_piece (hjoins _ List.mem_cons_self),
      ih fun g hg => hjoins g (List.mem_cons_of_mem _ hg)]

theorem Kept.tokens (h : Kept gap gs l) (hjoins : ∀ g ∈ gs, g.1.joins rules) :
    tokensFrom rules before l.2 = groupsFrom rules before gs := by
  induction h generalizing before with
  | nil => rfl
  | @cons gap gap' next next' group rest pieces hblank hbreaks hrest ih =>
    have hjoinsRest : ∀ g ∈ rest, g.1.joins rules :=
      fun g hg => hjoins g (List.mem_cons_of_mem _ hg)
    have hbare := hrest.bare hjoinsRest
    have hline : ∀ now, rules.lineEnd now (bareTokens rules pieces) (next'.any Element.endsLine) =
        rules.lineEnd now (bareGroups rules rest) (next.any breaks) := by
      intro now
      rw [hbare]
      cases hrest with
      | nil => simp [bareGroups]
      | cons hblank' hbreaks' => rw [hbreaks']
    rw [tokensFrom, groupsFrom, tokens_piece (hjoins _ List.mem_cons_self), hline, ih hjoinsRest]

/-- Two divisions of the same characters are one if they are the beginning of the same tokens. -/
theorem words_unique {ws ws' : List (List Char)} {rest rest' : List Token}
    (hnil : [] ∉ ws) (hnil' : [] ∉ ws') (hchars : ws.flatten = ws'.flatten)
    (h : ws.map Token.word ++ rest = ws'.map Token.word ++ rest') : ws = ws' := by
  induction ws generalizing ws' with
  | nil =>
    cases ws' with
    | nil => rfl
    | cons w' ws' =>
      rw [List.flatten_nil, List.flatten_cons] at hchars
      obtain rfl : w' = [] := (List.append_eq_nil_iff.mp hchars.symm).1
      exact absurd List.mem_cons_self hnil'
  | cons w ws ih =>
    cases ws' with
    | nil =>
      rw [List.flatten_nil, List.flatten_cons] at hchars
      obtain rfl : w = [] := (List.append_eq_nil_iff.mp hchars).1
      exact absurd List.mem_cons_self hnil
    | cons w' ws' =>
      obtain ⟨hword, hrest⟩ := List.cons.inj h
      obtain rfl : w = w' := Token.word.inj hword
      rw [List.flatten_cons, List.flatten_cons, List.append_cancel_left_eq] at hchars
      rw [ih (fun hmem => hnil (List.mem_cons_of_mem _ hmem))
        (fun hmem => hnil' (List.mem_cons_of_mem _ hmem)) hchars hrest]

theorem flatten_flatMap_words (rules : Rules) (parts : List (List Char)) :
    (parts.flatMap rules.words).flatten = parts.flatten := by
  induction parts with
  | nil => rfl
  | cons chars parts ih =>
    rw [List.flatMap_cons, List.flatten_append, rules.flatten_words, ih, List.flatten_cons]

/-- Runs whose tokens are kept divide into them also when they are put together. -/
theorem Kept.joins_of_bare (h : Kept gap gs l)
    (hbare : bareTokens rules l.2 = bareGroups rules gs) : ∀ g ∈ gs, g.1.joins rules := by
  induction h with
  | nil => exact nofun
  | @cons gap gap' next next' group rest pieces hblank hbreaks hrest ih =>
    rw [bareTokens_cons, bareGroups_cons] at hbare
    have hgroup : group.joins rules := by
      cases group with
      | literal text => rfl
      | runs parts =>
        have hnil : [] ∉ parts.flatMap rules.words := by
          rw [List.mem_flatMap]
          rintro ⟨chars, -, hmem⟩
          exact rules.nil_notMem chars hmem
        have hchars : (rules.words parts.flatten).flatten =
            (parts.flatMap rules.words).flatten := by
          rw [rules.flatten_words, flatten_flatMap_words]
        exact beq_iff_eq.mpr (words_unique (rules.nil_notMem _) hnil hchars hbare)
    rw [tokens_piece hgroup, List.append_cancel_left_eq] at hbare
    intro g hg
    rcases List.mem_cons.mp hg with rfl | hg
    · exact hgroup
    · exact ih hbare g hg

/-! ### One element more -/

theorem Kept.comment (h : Kept gap gs l) (he : e.isComment) : Kept (e :: gap) gs l := by
  have hnone : blank e = false ∧ breaks e = false := by
    cases e <;> first | exact ⟨rfl, rfl⟩ | cases he
  cases h with
  | nil gap gap' => exact .nil _ _
  | cons hblank hbreaks hrest =>
    refine .cons ?_ ?_ hrest
    · rw [List.any_cons, hnone.1, Bool.false_or, hblank]
    · rw [List.any_cons, hnone.2, Bool.false_or, hbreaks]

theorem Kept.left (h : Kept gap gs l) (he : blank e) (hlines : e'.endsLine = breaks e) :
    Kept (e :: gap) gs (l.gap e') := by
  cases h with
  | nil gap gap' => exact .nil _ _
  | cons hblank hbreaks hrest =>
    refine .cons ?_ ?_ hrest
    · simp [he]
    · rw [List.any_cons, List.any_cons, hlines, hbreaks]

/-- White space goes where a line end stays. -/
theorem Kept.gone (h : Kept gap gs l) (he : blank e) (hends : l.1.any Element.endsLine = true) :
    Kept (e :: gap) gs l := by
  cases h with
  | nil gap gap' => exact .nil _ _
  | cons hblank hbreaks hrest =>
    refine .cons ?_ ?_ hrest
    · simp only [List.any_cons, he, Bool.true_or, true_iff]
      rintro rfl
      simp at hends
    · rw [List.any_cons, hbreaks, hends, Bool.or_true]

theorem Kept.literal (h : Kept gap gs l) (text : List Char) :
    Kept [] ((.literal text, gap) :: gs) (l.literal text) :=
  .cons (by simp) rfl h

/-- Whether a mark joins a run. -/
theorem mark_cases (c : Char) (l : Layout) :
    (∃ chars gap rest, l = ([], (.run chars, gap) :: rest) ∧
      l.mark c = ([], (.run (c :: chars), gap) :: rest)) ∨
    (l.mark c = ([], (.run [c], l.1) :: l.2) ∧
      (l.1 ≠ [] ∨ ∀ chars gap rest, l.2 ≠ (.run chars, gap) :: rest)) := by
  obtain ⟨gap, pieces⟩ := l
  cases gap with
  | cons e gap => exact .inr ⟨rfl, .inl (List.cons_ne_nil e gap)⟩
  | nil =>
    cases pieces with
    | nil => exact .inr ⟨rfl, .inr fun _ _ _ h => nomatch h⟩
    | cons p rest =>
      obtain ⟨piece, gap⟩ := p
      cases piece with
      | run chars => exact .inl ⟨chars, gap, rest, rfl, rfl⟩
      | literal text => exact .inr ⟨rfl, .inr fun _ _ _ h => nomatch h⟩

/-- A mark before runs that nothing but comments is before joins what is left of them. -/
theorem Kept.joins {c : Char} {parts : List (List Char)} {next : List Element}
    {rest : List (Group × List Element)} (h : Kept gap ((.runs parts, next) :: rest) l)
    (hblank : gap.any blank = false) :
    ∃ next' pieces, l.mark c = ([], (.run (c :: parts.flatten), next') :: pieces) ∧
      Kept next rest (next', pieces) := by
  cases h with
  | @cons gap gap' next next' group rest pieces hkeeps hbreaks hrest =>
    obtain rfl : gap' = [] := by
      by_contra hne
      rw [hkeeps.mpr hne] at hblank
      cases hblank
    exact ⟨next', pieces, rfl, hrest⟩

/-- A run that nothing is left before comes from runs. -/
theorem Kept.of_run {chars : List Char} {next : List Element}
    {rest : List (Piece × List Element)} (h : Kept gap gs ([], (.run chars, next) :: rest)) :
    ∃ parts next' others, gs = (.runs parts, next') :: others ∧ gap.any blank = false := by
  generalize hl : (([], (.run chars, next) :: rest) : Layout) = l at h
  cases h with
  | nil => cases hl
  | @cons gap gap' next next' group others pieces hkeeps hbreaks hrest =>
    obtain ⟨rfl, hpieces⟩ := Prod.mk.inj hl
    cases group with
    | literal text => cases hpieces
    | runs parts =>
      refine ⟨parts, next, others, rfl, ?_⟩
      cases hblank : gap.any blank with
      | false => rfl
      | true => exact absurd rfl (hkeeps.mp hblank)

theorem Kept.mark {c : Char} (h : Kept gap (groups ps) l) :
    Kept (Layout.mark c (gap, ps)).1 (groups (Layout.mark c (gap, ps)).2) (l.mark c) := by
  rcases mark_cases c (gap, ps) with ⟨chars, next, rest, hl, hmark⟩ | ⟨hmark, -⟩
  · -- the first character of a run, whose group it begins too
    obtain ⟨rfl, rfl⟩ := Prod.mk.inj hl
    rw [hmark, groups]
    rw [groups] at h
    rcases addRun_cases chars next (groups rest) with
      ⟨parts, next', others, hgroups, hblank, hadd⟩ | ⟨hadd, hnew⟩
    · rw [hadd] at h
      obtain ⟨after, pieces, hjoin, hrest⟩ := h.joins (c := c) rfl
      rw [hjoin, hgroups, addRun, hblank]
      exact .cons (by simp) rfl hrest
    · rw [hadd] at h
      obtain ⟨after, pieces, hjoin, hrest⟩ := h.joins (c := c) rfl
      rcases addRun_cases (c :: chars) next (groups rest) with
        ⟨parts, next', others, hgroups, hblank, -⟩ | ⟨hadd', -⟩
      · rw [hblank] at hnew
        exact absurd hgroups (hnew.resolve_left Bool.false_ne_true parts next' others)
      · rw [hjoin, hadd', List.flatten_cons, List.flatten_nil, List.append_nil]
        have hpiece : (Group.runs [c :: chars]).piece = .run (c :: chars) := by
          simp [Group.piece]
        rw [← hpiece]
        exact .cons (by simp) rfl hrest
  · rw [hmark, groups]
    rcases addRun_cases [c] gap (groups ps) with
      ⟨parts, next', others, hgroups, hblank, hadd⟩ | ⟨hadd, hnew⟩
    · -- comments before runs
      rw [hgroups] at h
      obtain ⟨after, pieces, hjoin, hrest⟩ := h.joins (c := c) hblank
      rw [hjoin, hadd]
      exact .cons (by simp) rfl hrest
    · rcases mark_cases c l with ⟨chars, next, rest, rfl, -⟩ | ⟨hmark', -⟩
      · obtain ⟨parts, next', others, hgroups, hblank⟩ := h.of_run
        rw [hblank] at hnew
        exact absurd hgroups (hnew.resolve_left Bool.false_ne_true parts next' others)
      · rw [hadd, hmark']
        have hpiece : (Group.runs [[c]]).piece = .run [c] := by simp [Group.piece]
        rw [← hpiece]
        exact .cons (by simp) rfl h

/-- With a line comment a carriage return goes, and the line end stays. -/
theorem tidyElements_dropReturn (h : atFeed es) :
    tidyElements (dropReturn (uncommented es)) = tidyElements (uncommented es) := by
  rcases uncommented_of_atFeed h with rfl | ⟨rest, rfl, hdrop⟩ | ⟨rest, rfl, hdrop⟩
  · rfl
  · rw [hdrop]
    rfl
  · rw [hdrop]
    have hends : elementsEndLine (.newline '\n' :: uncommented rest) = true := rfl
    have htidy : tidyElements (uncommented (.newline '\r' :: .newline '\n' :: rest)) =
        tidyElements (.newline '\n' :: uncommented rest) := by
      simp only [uncommented]
      rw [tidyElements, if_pos hends]
    exact htidy.symm

/-- The pieces of a source and what the program leaves of them. -/
theorem kept_layout (hmode : mode.reading) (hwf : wellFormed depths es) (h : follows mode es) :
    Kept (layout es).1 (groups (layout es).2) (layout (tidyElements (uncommented es))) := by
  induction es generalizing depths mode with
  | nil => exact .nil _ _
  | cons e es ih =>
    obtain ⟨hproper, hfits, depths', hafter, hrest⟩ := wellFormed_cons hwf
    -- a comment leaves its gap, a blank may go or stay, and everything else stays as it
    -- is
    cases he : e.isComment with
    | true =>
      cases e with
      | blockComment body =>
        rw [follows, Bool.and_eq_true, Bool.and_eq_true, beq_iff_eq] at h
        obtain ⟨-, hfollows⟩ := h
        exact (ih rfl hrest hfollows).comment rfl
      | lineComment body =>
        rw [follows, Bool.and_eq_true, Bool.and_eq_true, beq_iff_eq] at h
        obtain ⟨⟨-, hfeed⟩, hfollows⟩ := h
        rw [uncommented, tidyElements_dropReturn hfeed]
        exact (ih rfl hrest hfollows).comment rfl
      | _ => cases he
    | false =>
      obtain ⟨mode', hcopies, hfollows⟩ := follows_cons he h
      have hreading : mode'.reading :=
        (scanFrom_append hmode hcopies (head_of_getLast hwf he)).2
      have hes := ih hreading hrest hfollows
      rw [uncommented_cons he]
      cases hblank : blank e with
      | true =>
        have hgap : layout (e :: es) = (layout es).gap e := by
          cases e <;> first | rfl | cases hblank
        rw [hgap]
        rcases tidyElements_blank hblank hproper (uncommented es) with
          ⟨hline, htidy⟩ | ⟨e', htidy, hblank', -, hlines⟩
        · obtain ⟨rest, hfeed⟩ := tidyElements_of_endsLine hline
          rw [htidy]
          apply hes.gone hblank
          rw [hfeed]
          rfl
        · have hgap' : layout (tidyElements (e :: uncommented es)) =
              (layout (tidyElements (uncommented es))).gap e' := by
            rw [htidy]
            cases e' <;> first | rfl | cases hblank'
          rw [hgap']
          exact hes.left hblank hlines
      | false =>
        rw [(tidyElements_stays hblank).1]
        cases e with
        | mark c => exact hes.mark
        | string quote body => exact hes.literal _
        | template head last body => exact hes.literal _
        | space c => cases hblank
        | newline c => cases hblank
        | lineComment body => cases he
        | blockComment body => cases he

end Tokens

/-! ## The outcome -/

section Outcome

variable {depths : List ℕ} {mode : Mode} {es : List Element}

/-- Trimming takes the line end in front when something is behind it. -/
theorem trimElements_cases (es : List Element) :
    (trimElements es = es ∧ (es.head? ≠ some (.newline '\n') ∨ es = [.newline '\n'])) ∨
      es = .newline '\n' :: trimElements es ∧ trimElements es ≠ [] := by
  cases es with
  | nil => exact .inl ⟨rfl, .inl nofun⟩
  | cons e es =>
    cases e with
    | newline c =>
      by_cases hc : c = '\n'
      · subst hc
        cases es with
        | nil => exact .inl ⟨rfl, .inr rfl⟩
        | cons e es => exact .inr ⟨rfl, List.cons_ne_nil e es⟩
      · have hhead : (Element.newline c :: es).head? ≠ some (.newline '\n') := by simpa using hc
        cases es with
        | nil => exact .inl ⟨rfl, .inl hhead⟩
        | cons e es => exact .inl ⟨by rw [trimElements, if_neg hc], .inl hhead⟩
    | _ => exact .inl ⟨rfl, .inl nofun⟩

/-- Every element has text, and only a line feed begins with a line feed. -/
theorem text_head (hwf : wellFormed depths es) (hne : es ≠ []) :
    ∃ c rest, text es = c :: rest ∧ (c = '\n' → es.head? = some (.newline '\n')) := by
  cases es with
  | nil => exact absurd rfl hne
  | cons e es =>
    obtain ⟨hproper, -⟩ := wellFormed_cons hwf
    rw [text_cons]
    have hliteral : e.isLiteral → ∃ c rest, e.text ++ text es = c :: rest ∧
        (c = '\n' → (e :: es).head? = some (.newline '\n')) := by
      intro hlit
      obtain ⟨⟨c, rest, htext, -, -, hfeed⟩, -⟩ := literal_ends hlit hproper
      exact ⟨c, rest ++ text es, by rw [htext, List.cons_append], fun h => absurd h hfeed⟩
    cases e with
    | mark c =>
      refine ⟨c, text es, rfl, ?_⟩
      rintro rfl
      exact absurd hproper (by decide)
    | space c =>
      refine ⟨c, text es, rfl, ?_⟩
      rintro rfl
      exact absurd hproper (by decide)
    | newline c =>
      refine ⟨c, text es, rfl, ?_⟩
      rintro rfl
      rfl
    | string quote body => exact hliteral rfl
    | template head last body => exact hliteral rfl
    | lineComment body => exact ⟨'/', _, rfl, fun h => absurd h (by decide)⟩
    | blockComment body => exact ⟨'/', _, rfl, fun h => absurd h (by decide)⟩

theorem text_trimElements (hwf : wellFormed depths es) {s : List Char} (h : text es = tidy s) :
    text (trimElements es) = tidied s := by
  rw [tidied, ← h]
  rcases trimElements_cases es with ⟨htrim, hkeep⟩ | ⟨hcut, hmore⟩
  · have hwhole : ¬ ((text es).head? = some '\n' ∧ (text es).tail ≠ []) := by
      rintro ⟨hhead, htail⟩
      have hne : es ≠ [] := by
        rintro rfl
        simp at hhead
      obtain ⟨c, rest, htext, hfeed⟩ := text_head hwf hne
      obtain rfl : c = '\n' := by simpa [htext] using hhead
      obtain rfl := hkeep.resolve_left (not_not_intro (hfeed rfl))
      exact htail rfl
    rw [if_neg hwhole, htrim]
  · have hwf' : wellFormed depths (trimElements es) := by
      rw [hcut, wellFormed_blank rfl, Bool.and_eq_true] at hwf
      exact hwf.2
    obtain ⟨c, rest, htext, -⟩ := text_head hwf' hmore
    have hes : text es = '\n' :: text (trimElements es) := by
      rw [hcut, text_cons, ← hcut]
      rfl
    have hcondition : (text es).head? = some '\n' ∧ (text es).tail ≠ [] := by
      rw [hes, htext]
      simp
    rw [if_pos hcondition, hes, List.tail_cons]

theorem wellFormed_trimElements (hwf : wellFormed depths es) :
    wellFormed depths (trimElements es) := by
  rcases trimElements_cases es with ⟨htrim, -⟩ | ⟨hcut, -⟩
  · rw [htrim]
    exact hwf
  · rw [hcut, wellFormed_blank rfl, Bool.and_eq_true] at hwf
    exact hwf.2

theorem follows_trimElements (h : follows .code es) : follows .code (trimElements es) := by
  rcases trimElements_cases es with ⟨htrim, -⟩ | ⟨hcut, -⟩
  · rw [htrim]
    exact h
  · rw [hcut, follows_blank rfl rfl rfl] at h
    exact h

theorem layout_trimElements (es : List Element) : (layout (trimElements es)).2 = (layout es).2 := by
  rcases trimElements_cases es with ⟨htrim, -⟩ | ⟨hcut, -⟩
  · rw [htrim]
  · calc (layout (trimElements es)).2
        = (layout (.newline '\n' :: trimElements es)).2 := rfl
      _ = (layout es).2 := by rw [← hcut]

theorem mem_of_mem_trimElements {e : Element} (h : e ∈ trimElements es) : e ∈ es := by
  rcases trimElements_cases es with ⟨htrim, -⟩ | ⟨hcut, -⟩
  · rwa [htrim] at h
  · rw [hcut]
    exact List.mem_cons_of_mem _ h

theorem uncommented_self (h : ∀ e ∈ es, e.isComment = false) : uncommented es = es := by
  induction es with
  | nil => rfl
  | cons e es ih =>
    rw [uncommented_cons (h e List.mem_cons_self),
      ih fun d hd => h d (List.mem_cons_of_mem _ hd)]

/-- Taking out the comments leaves the mode as it is everywhere else. -/
theorem follows_uncommented (h : follows mode es) : follows mode (uncommented es) := by
  induction es generalizing mode with
  | nil => rfl
  | cons e es ih =>
    cases he : e.isComment with
    | false =>
      obtain ⟨mode', hcopies, hfollows⟩ := follows_cons he h
      rw [uncommented_cons he]
      cases e with
      | lineComment body => cases he
      | blockComment body => cases he
      | _ => simpa only [follows, hcopies] using ih hfollows
    | true =>
      cases e with
      | blockComment body =>
        rw [follows, Bool.and_eq_true, Bool.and_eq_true, beq_iff_eq] at h
        obtain ⟨⟨rfl, -⟩, hfollows⟩ := h
        exact ih hfollows
      | lineComment body =>
        rw [follows, Bool.and_eq_true, Bool.and_eq_true, beq_iff_eq] at h
        obtain ⟨⟨rfl, hfeed⟩, hfollows⟩ := h
        have hcode := ih hfollows
        rw [uncommented]
        rcases uncommented_of_atFeed hfeed with rfl | ⟨rest, rfl, hdrop⟩ | ⟨rest, rfl, hdrop⟩
        · rfl
        · rw [hdrop]
          exact hcode
        · rw [hdrop]
          exact hcode
      | _ => cases he

/-- The scanner leaves alone what has no comments, where it follows it. -/
theorem scan_self (hwf : wellFormed depths es) (hcomments : ∀ e ∈ es, e.isComment = false)
    (h : follows .code es) : scan (text es) = text es := by
  rw [scan_eq_scanFrom, scanFrom_text rfl hwf h, uncommented_self hcomments]

/-- Text of the outcome that does not end in white space is steady. -/
theorem steady_of_suffix_tidy {s t q : List Char} (h : t ++ q <:+ tidy s)
    (hlast : ∀ c, t.getLast? = some c → isSpace c = false) : steady t := by
  induction t with
  | nil => rfl
  | cons c t ih =>
    have hlastRest : ∀ d, t.getLast? = some d → isSpace d = false :=
      fun d hd => hlast d (by rw [List.getLast?_cons, hd]; rfl)
    rw [List.cons_append] at h
    have hrest := ih ((List.suffix_cons c (t ++ q)).trans h) hlastRest
    rw [steady, hrest, Bool.and_true]
    by_cases hc : isSpace c = true
    · have ht : t ≠ [] := by
        rintro rfl
        rw [hlast c rfl] at hc
        cases hc
      obtain ⟨hends, hfeed⟩ := of_suffix_tidy h hc (by simp [ht])
      rw [endsLine_append hlastRest ht] at hends
      by_cases hb : isBoundary c = true
      · simp [hends, hfeed hb]
      · simp [hends, hb]
    · simp [hc]

theorem text_suffix {e : Element} (he : e ∈ es) : ∃ q, e.text ++ q <:+ text es := by
  obtain ⟨pre, post, rfl⟩ := List.append_of_mem he
  refine ⟨text post, text pre, ?_⟩
  simp [text]

/-- The literals of whatever source comes out are steady. -/
theorem steady_of_outcome {out : Source} {s : List Char} (hout : stripComments s = out.text)
    {e : Element} (he : e ∈ out.elements) (hliteral : e.isLiteral) : steady e.text := by
  obtain ⟨q, hsuffix⟩ := text_suffix he
  have htidy : e.text ++ q <:+ tidy (scan s) := by
    apply hsuffix.trans
    rw [← Source.text, ← hout, stripComments, clean_eq_tidied]
    exact tidied_suffix _
  exact steady_of_suffix_tidy htidy (literal_ends hliteral (proper_of_mem out.wf he)).2

/-- What comes out of a source that the scanner follows, with steady literals. -/
theorem outcome_of_follows (hwf : wellFormed [] es) (hfollows : follows .code es)
    (hsteady : ∀ e ∈ es, e.isLiteral → steady e.text) :
    ∃ out : Source, stripComments (text es) = out.text ∧
      (∀ e ∈ out.elements, e.isComment = false) ∧
      (∃ gap, Kept (layout es).1 (groups (layout es).2) (gap, (layout out.elements).2)) ∧
      stripComments (stripComments (text es)) = stripComments (text es) := by
  have hscan : scan (text es) = text (uncommented es) := by
    rw [scan_eq_scanFrom, scanFrom_text rfl hwf hfollows]
  have hwf₁ := wellFormed_uncommented hwf
  have hcomments₁ : ∀ e ∈ uncommented es, e.isComment = false :=
    fun e he => (mem_of_mem_uncommented he).2
  have hsteady₁ : ∀ e ∈ uncommented es, e.isLiteral → steady e.text :=
    fun e he => hsteady e (mem_of_mem_uncommented he).1
  have hfollows₁ := follows_uncommented hfollows
  have htidy := text_tidyElements hwf₁ hcomments₁ hsteady₁
  have hwf₂ := wellFormed_tidyElements hwf₁ hcomments₁
  have hcomments₂ := comments_tidyElements hwf₁ hcomments₁
  have hwf₃ := wellFormed_trimElements hwf₂
  have hcomments₃ : ∀ e ∈ trimElements (tidyElements (uncommented es)), e.isComment = false :=
    fun e he => hcomments₂ e (mem_of_mem_trimElements he)
  have hfollows₃ := follows_trimElements (follows_tidyElements rfl hwf₁ hcomments₁ hfollows₁)
  have hout : stripComments (text es) = text (trimElements (tidyElements (uncommented es))) := by
    rw [stripComments, clean_eq_tidied, hscan, text_trimElements hwf₂ htidy]
  have hagain : scan (stripComments (text es)) = stripComments (text es) := by
    rw [hout, scan_self hwf₃ hcomments₃ hfollows₃]
  refine ⟨⟨_, hwf₃⟩, hout, hcomments₃, ⟨(layout (tidyElements (uncommented es))).1, ?_⟩, ?_⟩
  · rw [layout_trimElements]
    exact kept_layout rfl hwf hfollows
  · calc stripComments (stripComments (text es))
        = clean (scan (stripComments (text es))) := rfl
      _ = clean (clean (scan (text es))) := by rw [hagain, stripComments]
      _ = stripComments (text es) := clean_clean _

variable {rules : Rules} {source : Source}

theorem preserved_of_preservable (h : Preservable rules source) : Preserved rules source := by
  obtain ⟨out, hout, hcomments, ⟨gap, hkept⟩, hagain⟩ :=
    outcome_of_follows source.wf h.follows h.steady
  refine ⟨⟨out, hout, hcomments, ?_⟩, hagain⟩
  calc tokensFrom rules [] (layout out.elements).2
      = groupsFrom rules [] (groups (layout source.elements).2) := hkept.tokens h.joined
    _ = tokensFrom rules [] (layout source.elements).2 := (tokensFrom_eq h.gaps).symm

theorem preservable_of_preserved (hfollows : follows .code source.elements)
    (h : Preserved rules source) : Preservable rules source := by
  obtain ⟨⟨out, hout, hcomments, htokens⟩, -⟩ := h
  have hsteady : ∀ e ∈ source.elements, e.isLiteral → steady e.text := by
    intro e he hliteral
    have hmem : Token.literal e.text ∈ out.tokens rules := by
      rw [htokens]
      exact literal_mem_tokens.mpr ⟨e, he, hliteral, rfl⟩
    obtain ⟨e', he', hliteral', htext⟩ := literal_mem_tokens.mp hmem
    rw [← htext]
    exact steady_of_outcome hout he' hliteral'
  obtain ⟨out', hout', -, ⟨gap, hkept⟩, -⟩ := outcome_of_follows source.wf hfollows hsteady
  -- a text has one reading
  obtain rfl : out = out' := Source.ext_text (hout.symm.trans hout')
  have hbare : bareTokens rules (layout out.elements).2 =
      bareGroups rules (groups (layout source.elements).2) := by
    rw [bareGroups_groups, ← filter_tokens, ← filter_tokens, htokens]
  have hjoined := hkept.joins_of_bare hbare
  refine ⟨hfollows, hsteady, gapsAgree_of_eq tokens_ne_nil ?_, hjoined⟩
  calc tokensFrom rules [] (layout source.elements).2
      = tokensFrom rules [] (layout out.elements).2 := htokens.symm
    _ = groupsFrom rules [] (groups (layout source.elements).2) := hkept.tokens hjoined

end Outcome

/-- The program keeps the tokens of a source that it reads as JavaScript does, whose literals the
clean-up leaves alone, whose line ends are where the clean-up has them, and whose comments are not
all that keeps tokens apart; and of the sources that it reads as JavaScript does it keeps those of
no others. -/
theorem stripComments_preserves (rules : Rules) (source : Source) :
    (Preservable rules source → Preserved rules source) ∧
      (follows .code source.elements → (Preserved rules source ↔ Preservable rules source)) :=
  ⟨preserved_of_preservable,
    fun h => ⟨preservable_of_preserved h, preserved_of_preservable⟩⟩

/-- A comment, and a comment opener in a string, before a template with a substitution. -/
def commented : Source where
  elements :=
    [.lineComment [' ', 'a'], .newline '\n', .mark 's', .mark '=',
      .string doubleQuote ['/', '/'], .space ' ', .blockComment ['*', 'b'], .mark '+',
      .blockComment [], .template true false ['x'], .mark 'y', .space ' ', .newline '\n',
      .mark 'z', .template false true [], .mark ';', .space ' ', .newline '\n']
  wf := by decide

/-- Letters and digits make words, and every line end matters. -/
def simpleRules : Rules where
  words chars := chars.splitBy fun a b => a.isAlphanum && b.isAlphanum
  matters _ _ := true
  flatten_words := List.flatten_splitBy _
  nil_notMem := List.nil_notMem_splitBy _

theorem stripComments_preserves_commented : Preserved simpleRules commented :=
  (stripComments_preserves _ commented).1 ⟨by decide, by decide, by decide, by decide⟩

/-- `/*/a*/` is a comment, and its end is looked for from where it begins. -/
theorem opener_closes_comment :
    ¬ Preserved simpleRules ⟨[.blockComment ['/', 'a']], by decide⟩ := by
  rintro ⟨⟨out, htext, -, htokens⟩, -⟩
  have hleft : stripComments (text [.blockComment ['/', 'a']]) =
      text [.mark 'a', .mark '*', .mark '/', .newline '\n'] := by
    rw [stripComments, scan_eq_scanFrom]
    decide
  have hout : out = ⟨[.mark 'a', .mark '*', .mark '/', .newline '\n'], by decide⟩ :=
    Source.ext_text (htext.symm.trans hleft)
  rw [hout] at htokens
  exact absurd htokens (by decide)

end BTHomeWritable.Tools.StripComments
