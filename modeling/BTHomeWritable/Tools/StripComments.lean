import BTHomeWritable.Lib.JavaScript
import Mathlib.Data.List.DropRight

/-!
# Stripping the comments of a bundle

`strip_comments` of `tools/build_espruino_bundle.py`: a scanner that copies
literals and drops comments, and a clean-up of the lines it leaves.  Both are
also given one character at a time, the scanner by the state its loops are in
(`scan_eq_scanFrom`), the clean-up by whether the line ends before anything
else stands on it (`clean_eq_tidied`).

The clean-up works on lines, each stripped at its end and dropped where nothing is
left of it, and puts a newline between them.  One character at a time the first line
is a case of its own, since nothing has been put before it yet.  In this form that
cleaning up twice is cleaning up once (`clean_clean`) is an induction along the
text.
-/

namespace BTHomeWritable.Tools.StripComments

open JavaScript

/-! ## The source -/

/-- The loop over a literal: what it copies, and what is left. -/
def copyLiteral (quote : Char) : List Char → List Char × List Char
  | [] => ([], [])
  | c :: rest =>
    if c = backslash then
      -- `source[i : i + 2]` is one character long at the end
      match rest with
      | [] => ([c], [])
      | d :: rest => (c :: d :: (copyLiteral quote rest).1, (copyLiteral quote rest).2)
    else if c = quote then ([c], rest)
    else (c :: (copyLiteral quote rest).1, (copyLiteral quote rest).2)

/-- `source[source.find("*/", i) + 2 :]`, or nothing where there is none. -/
def afterClose : List Char → List Char
  | [] => []
  | c :: rest => if c = '*' ∧ rest.head? = some '/' then rest.drop 1 else afterClose rest

theorem length_copyLiteral (quote : Char) (s : List Char) :
    (copyLiteral quote s).2.length ≤ s.length := by
  fun_induction copyLiteral quote s with
  | case1 => exact Nat.le_refl _
  | case2 => exact Nat.zero_le _
  | case3 d rest ih =>
    simp only [List.length_cons]
    omega
  | case4 rest => exact Nat.le_succ _
  | case5 c rest hback hquote ih =>
    simp only [List.length_cons]
    omega

theorem length_afterClose (s : List Char) : (afterClose s).length ≤ s.length := by
  fun_induction afterClose s with
  | case1 => exact Nat.le_refl _
  | case2 c rest h =>
    simp only [List.length_drop, List.length_cons]
    omega
  | case3 c rest h ih =>
    simp only [List.length_cons]
    omega

/-- The loop over the source: what ends up in `out`. -/
def scan : List Char → List Char
  | [] => []
  | c :: rest =>
    if isQuote c then c :: ((copyLiteral c rest).1 ++ scan (copyLiteral c rest).2)
    else if c = '/' ∧ rest.head? = some '/' then scan (rest.dropWhile (· ≠ '\n'))
    -- the search for the end begins at the slash, so it may find the star of the beginning
    else if c = '/' ∧ rest.head? = some '*' then scan (afterClose rest)
    else c :: scan rest
  termination_by s => s.length
  decreasing_by
    · have := length_copyLiteral c rest
      simp only [List.length_cons]
      omega
    · have := List.length_dropWhile_le (fun d => decide (d ≠ '\n')) rest
      simp only [List.length_cons]
      omega
    · have := length_afterClose rest
      simp only [List.length_cons]
      omega
    · simp only [List.length_cons]
      omega

/-- `str.isspace`, which is also what `strip` strips. -/
def isSpace (c : Char) : Bool :=
  (0x09 ≤ c.toNat && c.toNat ≤ 0x0D) || (0x1C ≤ c.toNat && c.toNat ≤ 0x20) || c.toNat == 0x85 ||
    c.toNat == 0xA0 || c.toNat == 0x1680 || (0x2000 ≤ c.toNat && c.toNat ≤ 0x200A) ||
    c.toNat == 0x2028 || c.toNat == 0x2029 || c.toNat == 0x202F || c.toNat == 0x205F ||
    c.toNat == 0x3000

/-- Where `str.splitlines` splits. -/
def isBoundary (c : Char) : Bool :=
  (0x0A ≤ c.toNat && c.toNat ≤ 0x0D) || (0x1C ≤ c.toNat && c.toNat ≤ 0x1E) || c.toNat == 0x85 ||
    c.toNat == 0x2028 || c.toNat == 0x2029

def splitlines : List Char → List (List Char)
  | [] => []
  | c :: rest =>
    -- a carriage return and a line feed are one boundary
    if c = '\r' ∧ rest.head? = some '\n' then splitlines rest
    else if isBoundary c then [] :: splitlines rest
    else match splitlines rest with
      | [] => [[c]]
      | line :: lines => (c :: line) :: lines

def rstrip (line : List Char) : List Char := line.rdropWhile isSpace

def strip (line : List Char) : List Char := (rstrip line).dropWhile isSpace

/-- The last two lines of the function. -/
def clean (s : List Char) : List Char :=
  let lines := (splitlines s).map rstrip
  ['\n'].intercalate (lines.filter fun line => strip line ≠ []) ++ ['\n']

def stripComments (source : List Char) : List Char := clean (scan source)

/-! ## The scanner one character at a time -/

/-- Where in the source of the scanner the loop stands.  `star` is the search for the end of a
block comment with a star just before. -/
inductive Mode where
  | code
  | quoted (quote : Char)
  | escaped (quote : Char)
  | line
  | block
  | star
  deriving DecidableEq

/-- The mode after a character that is copied. -/
def Mode.copied : Mode → Char → Mode
  | .quoted quote, c =>
    if c = backslash then .escaped quote else if c = quote then .code else .quoted quote
  | .escaped quote, _ => .quoted quote
  | _, c => if isQuote c then .quoted c else .code

def Mode.dropped : Mode → Char → Mode
  | .star, c => if c = '/' then .code else if c = '*' then .star else .block
  | _, c => if c = '*' then .star else .block

def scanFrom : Mode → List Char → List Char
  | _, [] => []
  | .code, c :: rest =>
    if c = '/' ∧ rest.head? = some '/' then scanFrom .line rest
    else if c = '/' ∧ rest.head? = some '*' then scanFrom .block rest
    else c :: scanFrom (Mode.code.copied c) rest
  | .quoted quote, c :: rest => c :: scanFrom ((Mode.quoted quote).copied c) rest
  | .escaped quote, c :: rest => c :: scanFrom (.quoted quote) rest
  | .line, c :: rest => if c = '\n' then c :: scanFrom .code rest else scanFrom .line rest
  | .block, c :: rest => scanFrom (Mode.block.dropped c) rest
  | .star, c :: rest => scanFrom (Mode.star.dropped c) rest

theorem scanFrom_quoted (quote : Char) (s : List Char) :
    scanFrom (.quoted quote) s =
      (copyLiteral quote s).1 ++ scanFrom .code (copyLiteral quote s).2 := by
  fun_induction copyLiteral quote s with
  | case1 => simp [scanFrom]
  | case2 => simp [scanFrom]
  | case3 d rest ih =>
    simp only [scanFrom, Mode.copied, if_true, List.cons_append, ih]
  | case4 rest hback => simp [scanFrom, Mode.copied, hback]
  | case5 c rest hback hquote ih =>
    simp only [scanFrom, Mode.copied, hback, hquote, if_false, List.cons_append, ih]

theorem scanFrom_line (s : List Char) :
    scanFrom .line s = scanFrom .code (s.dropWhile (· ≠ '\n')) := by
  induction s with
  | nil => simp [scanFrom]
  | cons c rest ih =>
    by_cases hc : c = '\n'
    · subst hc
      simp [scanFrom, Mode.copied, isQuote, doubleQuote, singleQuote, backtick]
    · simp [scanFrom, hc, ih]

theorem scanFrom_block (s : List Char) : scanFrom .block s = scanFrom .code (afterClose s) ∧
    scanFrom .star s = scanFrom .code (if s.head? = some '/' then s.drop 1 else afterClose s) := by
  induction s with
  | nil => simp [scanFrom, afterClose]
  | cons c rest ih =>
    obtain ⟨ihblock, ihstar⟩ := ih
    by_cases hstar : c = '*'
    · subst hstar
      have hstep : scanFrom .star rest = scanFrom .code (afterClose ('*' :: rest)) := by
        rw [ihstar, afterClose]
        simp only [true_and]
      simp [scanFrom, Mode.dropped, hstep]
    · have hstep : scanFrom .block rest = scanFrom .code (afterClose (c :: rest)) := by
        rw [ihblock, afterClose, if_neg fun h => hstar h.1]
      by_cases hslash : c = '/'
      · subst hslash
        simp [scanFrom, Mode.dropped, hstep]
      · simp [scanFrom, Mode.dropped, hstep, hstar, hslash]

theorem scan_eq_scanFrom (s : List Char) : scan s = scanFrom .code s := by
  have hquote : isQuote '/' = false := by decide
  fun_induction scan s with
  | case1 => rfl
  | case2 c rest hc ih =>
    have hslash : c ≠ '/' := by
      rintro rfl
      simp [hquote] at hc
    simp only [scanFrom, hslash, false_and, if_false, Mode.copied, hc, if_true, scanFrom_quoted, ih]
  | case3 c rest hc h ih => simp only [scanFrom, h, and_self, if_true, scanFrom_line, ih]
  | case4 c rest hc hline h ih =>
    simp only [scanFrom, h, and_self, if_true, scanFrom_block, ih]
    simp
  | case5 c rest hc hline hblock ih =>
    simp only [scanFrom, hline, hblock, if_false, Mode.copied, hc, Bool.false_eq_true, ih]

/-! ## The clean-up one character at a time -/

/-- The line ends before anything else stands on it. -/
def endsLine : List Char → Bool
  | [] => true
  | c :: rest => isSpace c && (isBoundary c || endsLine rest)

/-- What is left of the lines, each after the end of the one before: the first of them too when it
is not where the text begins. -/
def tidy : List Char → List Char
  | [] => ['\n']
  | c :: rest =>
    if isSpace c then
      if endsLine rest then tidy rest
      else (if isBoundary c then '\n' else c) :: tidy rest
    else c :: tidy rest

def tidied (s : List Char) : List Char :=
  if (tidy s).head? = some '\n' ∧ (tidy s).tail ≠ [] then (tidy s).tail else tidy s

/-- The lines that are kept. -/
def kept (lines : List (List Char)) : List (List Char) :=
  (lines.map rstrip).filter fun line => strip line ≠ []

theorem isSpace_of_isBoundary {c : Char} (h : isBoundary c) : isSpace c = true := by
  simp only [isBoundary, Bool.or_eq_true, Bool.and_eq_true, decide_eq_true_eq, beq_iff_eq] at h
  simp only [isSpace, Bool.or_eq_true, Bool.and_eq_true, decide_eq_true_eq, beq_iff_eq]
  omega

theorem rstrip_cons (c : Char) (line : List Char) :
    rstrip (c :: line) = if isSpace c ∧ rstrip line = [] then [] else c :: rstrip line := by
  have hblank : rstrip line = [] ↔ ∀ d ∈ line, isSpace d = true := List.rdropWhile_eq_nil_iff
  by_cases hline : rstrip line = []
  · by_cases hc : isSpace c = true
    · rw [if_pos ⟨hc, hline⟩, rstrip, List.rdropWhile_eq_nil_iff]
      rintro d hd
      rcases List.mem_cons.mp hd with rfl | hd
      · exact hc
      · exact hblank.mp hline d hd
    · rw [if_neg fun h => hc h.1, hline, rstrip, List.rdropWhile, List.reverse_cons,
        List.dropWhile_append_of_pos fun d hd => hblank.mp hline d (List.mem_reverse.mp hd)]
      simp [hc]
  · have hreverse : line.reverse.dropWhile isSpace ≠ [] := by
      simpa [rstrip, List.rdropWhile] using hline
    rw [if_neg fun h => hline h.2, rstrip, rstrip, List.rdropWhile, List.rdropWhile,
      List.reverse_cons, List.dropWhile_append, if_neg (by simpa using hreverse)]
    simp

@[simp] theorem strip_rstrip_eq_nil_iff (line : List Char) :
    strip (rstrip line) = [] ↔ rstrip line = [] := by
  have htwice : rstrip (rstrip line) = rstrip line := List.rdropWhile_idempotent _ _
  rw [strip, htwice, List.dropWhile_eq_nil_iff]
  exact ⟨fun h => by rw [← htwice]; exact List.rdropWhile_eq_nil_iff.mpr h,
    fun h => by simp [h]⟩

theorem kept_cons (line : List Char) (lines : List (List Char)) :
    kept (line :: lines) =
      if rstrip line = [] then kept lines else rstrip line :: kept lines := by
  rw [kept, List.map_cons, List.filter_cons, ← kept]
  by_cases h : rstrip line = []
  · rw [if_neg (by simpa using h), if_pos h]
  · rw [if_pos (by simpa using h), if_neg h]

@[simp] theorem rstrip_nil : rstrip [] = [] := List.rdropWhile_nil _

/-! ### The first line and the others -/

section Lines

variable {c : Char} {rest : List Char}

/-- A carriage return before a line feed, in both readings. -/
theorem of_feed (h : c = '\r' ∧ rest.head? = some '\n') :
    isSpace c = true ∧ endsLine rest = true ∧ splitlines (c :: rest) = splitlines rest := by
  refine ⟨?_, ?_, by rw [splitlines, if_pos h]⟩
  · obtain ⟨rfl, -⟩ := h
    decide
  · obtain ⟨-, hhead⟩ := h
    obtain ⟨rest, rfl⟩ := List.head?_eq_some_iff.mp hhead
    simp [endsLine, isSpace, isBoundary]

theorem splitlines_boundary (hfeed : ¬ (c = '\r' ∧ rest.head? = some '\n'))
    (h : isBoundary c = true) : splitlines (c :: rest) = [] :: splitlines rest := by
  rw [splitlines, if_neg hfeed, if_pos h]

theorem splitlines_inside (hfeed : ¬ (c = '\r' ∧ rest.head? = some '\n'))
    (h : ¬ isBoundary c = true) : splitlines (c :: rest) =
      (c :: (splitlines rest).headD []) :: (splitlines rest).tail := by
  rw [splitlines, if_neg hfeed, if_neg h]
  cases splitlines rest <;> rfl

end Lines

theorem endsLine_iff (s : List Char) :
    endsLine s = true ↔ rstrip ((splitlines s).headD []) = [] := by
  induction s with
  | nil => simp [endsLine, splitlines]
  | cons c rest ih =>
    rw [endsLine, Bool.and_eq_true, Bool.or_eq_true]
    by_cases hfeed : c = '\r' ∧ rest.head? = some '\n'
    · obtain ⟨hspace, hends, hlines⟩ := of_feed hfeed
      rw [hlines, ← ih, hspace, hends]
      simp
    · by_cases hboundary : isBoundary c = true
      · rw [splitlines_boundary hfeed hboundary]
        simp [hboundary, isSpace_of_isBoundary hboundary]
      · rw [splitlines_inside hfeed hboundary, List.headD_cons, rstrip_cons, ih]
        by_cases hc : isSpace c = true <;> simp [hc, hboundary]

theorem kept_splitlines (s : List Char) : kept (splitlines s) =
    if endsLine s then kept (splitlines s).tail
    else rstrip ((splitlines s).headD []) :: kept (splitlines s).tail := by
  have hends := endsLine_iff s
  cases hlines : splitlines s with
  | nil =>
    rw [hlines] at hends
    rw [if_pos (hends.mpr rstrip_nil)]
    rfl
  | cons line lines =>
    rw [hlines, List.headD_cons] at hends
    rw [kept_cons, List.headD_cons, List.tail_cons]
    by_cases h : rstrip line = []
    · rw [if_pos h, if_pos (hends.mpr h)]
    · rw [if_neg h, if_neg fun h' => h (hends.mp h')]

/-- Tidied text is what is left of the first line, and then the kept lines after it. -/
theorem tidy_eq (s : List Char) :
    tidy s = rstrip ((splitlines s).headD []) ++
      ((kept (splitlines s).tail).flatMap (List.cons '\n') ++ ['\n']) := by
  induction s with
  | nil => simp [tidy, splitlines, kept]
  | cons c rest ih =>
    rw [tidy]
    by_cases hfeed : c = '\r' ∧ rest.head? = some '\n'
    · obtain ⟨hspace, hends, hlines⟩ := of_feed hfeed
      rw [if_pos hspace, if_pos hends, hlines, ih]
    · by_cases hboundary : isBoundary c = true
      · rw [if_pos (isSpace_of_isBoundary hboundary), if_pos hboundary,
          splitlines_boundary hfeed hboundary, List.headD_cons, List.tail_cons, rstrip_nil,
          List.nil_append, kept_splitlines, ih]
        by_cases hends : endsLine rest = true
        · rw [if_pos hends, if_pos hends, (endsLine_iff rest).mp hends, List.nil_append]
        · rw [if_neg hends, if_neg hends, List.flatMap_cons]
          simp only [List.cons_append, List.append_assoc]
      · rw [if_neg hboundary, splitlines_inside hfeed hboundary, List.headD_cons, List.tail_cons,
          rstrip_cons, ih]
        by_cases hc : isSpace c = true
        · by_cases hends : endsLine rest = true
          · have hblank := (endsLine_iff rest).mp hends
            rw [if_pos hc, if_pos hends, if_pos ⟨hc, hblank⟩, hblank]
          · have hline := fun h => hends ((endsLine_iff rest).mpr h)
            rw [if_pos hc, if_neg hends, if_neg fun h => hline h.2, List.cons_append]
        · rw [if_neg hc, if_neg fun h => hc h.1, List.cons_append]

theorem notMem_boundary {s line : List Char} (hline : line ∈ splitlines s) {c : Char}
    (hc : c ∈ line) : isBoundary c = false := by
  induction s generalizing line with
  | nil => simp [splitlines] at hline
  | cons d rest ih =>
    by_cases hfeed : d = '\r' ∧ rest.head? = some '\n'
    · rw [(of_feed hfeed).2.2] at hline
      exact ih hline hc
    · by_cases hboundary : isBoundary d = true
      · rw [splitlines_boundary hfeed hboundary] at hline
        rcases List.mem_cons.mp hline with rfl | hline
        · simp at hc
        · exact ih hline hc
      · rw [splitlines_inside hfeed hboundary] at hline
        cases hlines : splitlines rest with
        | nil =>
          obtain rfl : line = [d] := by simpa [hlines] using hline
          obtain rfl : c = d := by simpa using hc
          simpa using hboundary
        | cons first others =>
          rw [hlines] at hline ih
          rcases List.mem_cons.mp hline with rfl | hline
          · rcases List.mem_cons.mp hc with rfl | hc
            · simpa using hboundary
            · exact ih List.mem_cons_self hc
          · exact ih (List.mem_cons_of_mem _ hline) hc

theorem intercalate_newline (line : List Char) (lines : List (List Char)) :
    ['\n'].intercalate (line :: lines) = line ++ lines.flatMap (List.cons '\n') := by
  induction lines generalizing line with
  | nil => simp
  | cons next lines ih =>
    rw [List.intercalate_cons_cons, ih, List.flatMap_cons]
    simp only [List.append_assoc, List.cons_append, List.nil_append]

theorem clean_eq_tidied (s : List Char) : clean s = tidied s := by
  have hclean : clean s = ['\n'].intercalate (kept (splitlines s)) ++ ['\n'] := rfl
  rw [hclean, tidied, tidy_eq, kept_splitlines]
  by_cases hends : endsLine s = true
  · rw [if_pos hends, (endsLine_iff s).mp hends, List.nil_append]
    cases hkept : kept (splitlines s).tail with
    | nil => simp
    | cons line lines => simp [intercalate_newline]
  · have hline := fun h => hends ((endsLine_iff s).mpr h)
    obtain ⟨c, line, hfirst⟩ := List.exists_cons_of_ne_nil hline
    have hc : c ≠ '\n' := by
      rintro rfl
      have hmem : '\n' ∈ (splitlines s).headD [] := by
        apply (List.rdropWhile_prefix isSpace _).subset
        rw [← rstrip, hfirst]
        exact List.mem_cons_self
      cases hlines : splitlines s with
      | nil => simp [hlines] at hmem
      | cons first others =>
        rw [hlines, List.headD_cons] at hmem
        have hin : first ∈ splitlines s := by
          rw [hlines]
          exact List.mem_cons_self
        exact absurd (notMem_boundary hin hmem) (by decide)
    rw [if_neg hends, intercalate_newline, hfirst, if_neg (by simp [hc]), List.append_assoc]

/-! ### Cleaning up twice -/

theorem endsLine_tidy {s : List Char} (h : endsLine s = false) : endsLine (tidy s) = false := by
  induction s with
  | nil => simp [endsLine] at h
  | cons c rest ih =>
    rw [tidy]
    by_cases hc : isSpace c = true
    · rw [endsLine, hc, Bool.true_and, Bool.or_eq_false_iff] at h
      obtain ⟨hboundary, hrest⟩ := h
      simp [hc, hboundary, hrest, endsLine, ih hrest]
    · simp [hc, endsLine]

theorem tidy_tidy (s : List Char) : tidy (tidy s) = tidy s := by
  have hfeed : isSpace '\n' = true ∧ isBoundary '\n' = true := by decide
  induction s with
  | nil => rfl
  | cons c rest ih =>
    rw [tidy]
    by_cases hc : isSpace c = true
    · by_cases hends : endsLine rest = true
      · rw [if_pos hc, if_pos hends, ih]
      · have hrest : endsLine (tidy rest) = false := endsLine_tidy (by simpa using hends)
        rw [if_pos hc, if_neg hends]
        by_cases hboundary : isBoundary c = true
        · rw [if_pos hboundary, tidy, ih]
          simp [hfeed, hrest]
        · rw [if_neg hboundary, tidy, ih]
          simp [hc, hboundary, hrest]
    · rw [if_neg hc, tidy, if_neg hc, ih]

/-- Before its last line end tidied text has no white space at the end of a line, and only line
feeds to end it. -/
theorem of_suffix_tidy {s rest : List Char} {c : Char} (h : c :: rest <:+ tidy s)
    (hc : isSpace c = true) (hrest : rest ≠ []) :
    endsLine rest = false ∧ (isBoundary c = true → c = '\n') := by
  induction s with
  | nil =>
    rw [tidy, List.suffix_cons_iff] at h
    rcases h with h | h
    · exact absurd (List.cons.inj h).2 hrest
    · cases List.suffix_nil.mp h
  | cons d s ih =>
    rw [tidy] at h
    by_cases hd : isSpace d = true
    · by_cases hends : endsLine s = true
      · rw [if_pos hd, if_pos hends] at h
        exact ih h
      · rw [if_pos hd, if_neg hends, List.suffix_cons_iff] at h
        rcases h with h | h
        · obtain ⟨rfl, rfl⟩ := List.cons.inj h
          refine ⟨endsLine_tidy (by simpa using hends), fun hboundary => ?_⟩
          by_cases hb : isBoundary d = true
          · rw [if_pos hb]
          · rw [if_neg hb] at hboundary
            exact absurd hboundary hb
        · exact ih h
    · rw [if_neg hd, List.suffix_cons_iff] at h
      rcases h with h | h
      · obtain ⟨rfl, -⟩ := List.cons.inj h
        exact absurd hc hd
      · exact ih h

theorem tidied_suffix (s : List Char) : tidied s <:+ tidy s := by
  unfold tidied
  split
  · exact List.tail_suffix _
  · exact List.suffix_refl _

theorem tidied_tidied (s : List Char) : tidied (tidied s) = tidied s := by
  by_cases h : (tidy s).head? = some '\n' ∧ (tidy s).tail ≠ []
  · obtain ⟨hhead, hmore⟩ := h
    obtain ⟨rest, hs⟩ := List.head?_eq_some_iff.mp hhead
    rw [hs, List.tail_cons] at hmore
    have hends : endsLine rest = false := by
      have hsuffix : '\n' :: rest <:+ tidy s := ⟨[], hs.symm⟩
      exact (of_suffix_tidy hsuffix (by decide) hmore).1
    have hcut : tidied s = rest := by rw [tidied, hs, if_pos ⟨rfl, hmore⟩, List.tail_cons]
    have htwice : tidy ('\n' :: rest) = '\n' :: rest := by rw [← hs, tidy_tidy]
    have hrest : tidy rest = rest := by
      rw [tidy, if_pos (by decide), hends] at htwice
      exact (List.cons.inj htwice).2
    have hfirst : rest.head? ≠ some '\n' := by
      intro hfeed
      obtain ⟨rest, rfl⟩ := List.head?_eq_some_iff.mp hfeed
      simp [endsLine, isSpace, isBoundary] at hends
    rw [hcut, tidied, hrest, if_neg fun h => hfirst h.1]
  · have hwhole : tidied s = tidy s := by rw [tidied, if_neg h]
    rw [hwhole, tidied, tidy_tidy, if_neg h]

theorem clean_clean (s : List Char) : clean (clean s) = clean s := by
  rw [clean_eq_tidied, clean_eq_tidied, tidied_tidied]

end BTHomeWritable.Tools.StripComments
