import Mathlib.Computability.Language
import Mathlib.Algebra.BigOperators.Group.List.Basic
import Mathlib.Algebra.Order.Ring.Int
import SqlScript.Proofs.Lexeme.Ending

/-!
# Proofs/Lexeme/Language — the texts of names, numbers, strings and comments

    name      letter (letter | digit)*              string    (N | n)? ' (not ' | '')* '
    number    [+ - .]? digit (digit | . | (e | E) [+ -]?)*
    comment   -- (not a break)*       or  /* … */, nested

Each kind of text is a **language** over characters, said without the functions that cut such texts
off.  The cutting functions then give words of these languages and stop where the language cannot go
on (`splitNumber_mem`, `closeString_mem`, `closeComment_nesting`), or find that the text is not
closed.
-/

namespace SqlScript.Lexeme

open Computability SqlScript.Text

/-! ## Languages -/

/-- The texts of one character that `p` admits. -/
def chars (p : Char → Bool) : Language Char := {cs | ∃ c, p c = true ∧ cs = [c]}

/-- A plain name. -/
def nameText : Language Char := chars isNameStart * (chars isNameChar)∗

/-- What a delimited name holds in front of the mark that closes it. -/
def delimitedBody (mark : Char) : Language Char := (chars (· ≠ mark))∗

/-- A name between two marks. -/
def delimitedText (mark close : Char) : Language Char :=
  chars (· = mark) * delimitedBody close * chars (· = close)

/-- The opening of a string, with the mark of national text or without. -/
def stringOpening : Language Char :=
  (1 + chars fun c => c = 'N' || c = 'n') * chars (· = singleQuote)

/-- What a string holds: quotes only in pairs. -/
def stringBody : Language Char := (chars (· ≠ singleQuote) + {[singleQuote, singleQuote]})∗

/-- A string literal. -/
def stringText : Language Char := stringOpening * stringBody * chars (· = singleQuote)

/-- What continues a number. -/
def numberPart : Language Char :=
  chars (fun c => c.isDigit || c = '.') + chars isExponentMark * (1 + chars isSign)

/-- A number. -/
def numberText : Language Char :=
  (1 + chars fun c => isSign c || c = '.') * chars Char.isDigit * numberPart∗

/-- A line comment. -/
def lineText : Language Char := {['-', '-']} * (chars (!isLineBreak ·))∗

/-- What the marks and the other characters of a text do to the number of open comments.  A mark
takes both of its characters. -/
def nestingSteps : List Char → List Int
  | '/' :: '*' :: cs => 1 :: nestingSteps cs
  | '*' :: '/' :: cs => -1 :: nestingSteps cs
  | _ :: cs => 0 :: nestingSteps cs
  | [] => []

/-- Between the first step of a text and its last a comment is open. -/
def OpenInside (text : List Char) : Prop :=
  ∀ i, 0 < i → i < (nestingSteps text).length → 0 < ((nestingSteps text).take i).sum

/-- A block comment: its last mark closes it, and no mark before does. -/
def blockText : Language Char :=
  {text | (∃ body, text = ['/', '*'] ++ body ++ ['*', '/']) ∧ OpenInside text ∧
    (nestingSteps text).sum = 0}

/-- A block comment that no mark closes. -/
def unclosedBlock : Language Char :=
  {text | ['/', '*'] <+: text ∧ OpenInside text ∧ 0 < (nestingSteps text).sum}

/-- White space and comments. -/
def triviaText : Language Char := (chars isSpace + lineText * chars isLineBreak + blockText)∗

/-! ## Characters and runs -/

theorem singleton_mem_chars {p : Char → Bool} {c : Char} : [c] ∈ chars p ↔ p c = true := by
  constructor
  · rintro ⟨d, hd, heq⟩
    cases heq
    exact hd
  · exact fun h => ⟨c, h, rfl⟩

theorem append_mem_kstar {l : Language Char} {as bs : List Char} (has : as ∈ l) (hbs : bs ∈ l∗) :
    as ++ bs ∈ l∗ := by
  rw [← Language.one_add_self_mul_kstar_eq_kstar]
  exact .inr (Language.append_mem_mul has hbs)

/-- A run of characters. -/
theorem mem_kstar_chars {p : Char → Bool} {cs : List Char} :
    cs ∈ (chars p)∗ ↔ ∀ c ∈ cs, p c = true := by
  constructor
  · rintro ⟨parts, rfl, hparts⟩ c hc
    obtain ⟨part, hpart, hmem⟩ := List.mem_flatten.mp hc
    obtain ⟨d, hd, rfl⟩ := hparts part hpart
    exact List.mem_singleton.mp hmem ▸ hd
  · intro h
    induction cs with
    | nil => exact Language.nil_mem_kstar _
    | cons c cs ih =>
      exact append_mem_kstar (singleton_mem_chars.mpr (h c List.mem_cons_self))
        (ih fun d hd => h d (List.mem_cons_of_mem c hd))

theorem takeWhile_mem (p : Char → Bool) (cs : List Char) : cs.takeWhile p ∈ (chars p)∗ :=
  mem_kstar_chars.mpr fun c hc => List.all_eq_true.mp List.all_takeWhile c hc

/-- A name is a character that opens one and the characters that go on with it. -/
theorem name_mem {c : Char} (h : isNameStart c = true) (cs : List Char) :
    c :: (splitName cs).1 ∈ nameText :=
  Language.append_mem_mul (singleton_mem_chars.mpr h) (takeWhile_mem isNameChar cs)

theorem line_mem (cs : List Char) : '-' :: '-' :: (splitLine cs).1 ∈ lineText :=
  ⟨['-', '-'], rfl, _, takeWhile_mem _ cs, rfl⟩

/-! ## Delimited names and strings -/

/-- A cut with something in front of its first part is a cut of the rest. -/
theorem exists_of_map_eq_some {f : List Char → List Char} {cut : Option (List Char × List Char)}
    {as bs : List Char} (h : (cut.map fun p => (f p.1, p.2)) = some (as, bs)) :
    ∃ as', cut = some (as', bs) ∧ f as' = as := by
  obtain ⟨⟨as', bs'⟩, hcut, heq⟩ := Option.map_eq_some_iff.mp h
  cases heq
  exact ⟨as', hcut, rfl⟩

theorem closeName_mem {mark : Char} {cs as bs : List Char} (h : closeName mark cs = some (as, bs)) :
    as ∈ delimitedBody mark * chars (· = mark) := by
  fun_induction closeName mark cs generalizing as bs with
  | case1 => exact absurd h (by simp)
  | case2 cs =>
    cases h
    exact Language.append_mem_mul (Language.nil_mem_kstar _) (singleton_mem_chars.mpr (by simp))
  | case3 c cs hmark ih =>
    obtain ⟨as, hclose, rfl⟩ := exists_of_map_eq_some h
    obtain ⟨body, hbody, last, hlast, rfl⟩ := ih hclose
    exact ⟨c :: body, append_mem_kstar (singleton_mem_chars.mpr (by simpa using hmark)) hbody,
      last, hlast, rfl⟩

theorem closeName_eq_none {mark : Char} {cs : List Char} (h : closeName mark cs = none) :
    cs ∈ delimitedBody mark := by
  fun_induction closeName mark cs with
  | case1 => exact Language.nil_mem_kstar _
  | case2 cs => exact absurd h (by simp)
  | case3 c cs hmark ih =>
    exact append_mem_kstar (singleton_mem_chars.mpr (by simpa using hmark))
      (ih (Option.map_eq_none_iff.mp h))

/-- **A closed string holds quotes in pairs only, and no quote stands behind it.** -/
theorem closeString_mem {cs as bs : List Char} (h : closeString cs = some (as, bs)) :
    as ∈ stringBody * chars (· = singleQuote) ∧ bs.head? ≠ some singleQuote := by
  fun_induction closeString cs generalizing as bs with
  | case1 cs ih =>
    obtain ⟨as, hclose, rfl⟩ :=
      exists_of_map_eq_some (f := fun as => singleQuote :: singleQuote :: as) h
    obtain ⟨⟨body, hbody, last, hlast, rfl⟩, hnext⟩ := ih hclose
    exact ⟨⟨_, append_mem_kstar (.inr rfl) hbody, last, hlast, rfl⟩, hnext⟩
  | case2 cs hquote =>
    cases h
    refine ⟨Language.append_mem_mul (Language.nil_mem_kstar _) (singleton_mem_chars.mpr rfl),
      fun hnext => ?_⟩
    obtain ⟨ds, rfl⟩ := List.head?_eq_some_iff.mp hnext
    exact hquote ds rfl
  | case3 c cs _ hc ih =>
    obtain ⟨as, hclose, rfl⟩ := exists_of_map_eq_some h
    obtain ⟨⟨body, hbody, last, hlast, rfl⟩, hnext⟩ := ih hclose
    have hother : [c] ∈ chars (· ≠ singleQuote) :=
      singleton_mem_chars.mpr (decide_eq_true fun h => hc h)
    exact ⟨⟨_, append_mem_kstar (.inl hother) hbody, last, hlast, rfl⟩, hnext⟩
  | case4 => exact absurd h (by simp)

theorem closeString_eq_none {cs : List Char} (h : closeString cs = none) : cs ∈ stringBody := by
  fun_induction closeString cs with
  | case1 cs ih => exact append_mem_kstar (.inr rfl) (ih (Option.map_eq_none_iff.mp h))
  | case2 cs hquote => exact absurd h (by simp)
  | case3 c cs _ hc ih =>
    have hother : [c] ∈ chars (· ≠ singleQuote) :=
      singleton_mem_chars.mpr (decide_eq_true fun h => hc h)
    exact append_mem_kstar (.inl hother) (ih (Option.map_eq_none_iff.mp h))
  | case4 => exact Language.nil_mem_kstar _

/-! ## Numbers -/

/-- **What is cut off behind the first character of a number continues it**; a sign comes first only
where `signed` says so. -/
theorem splitNumber_mem (signed : Bool) (cs : List Char) :
    (splitNumber signed cs).1 ∈ (if signed then 1 + chars isSign else 1) * numberPart∗ := by
  have hfront : ∀ {signed : Bool} {as : List Char}, as ∈ numberPart∗ →
      as ∈ (if signed then 1 + chars isSign else 1) * numberPart∗ := by
    intro signed as has
    refine Language.append_mem_mul (a := []) ?_ has
    cases signed
    · exact Language.nil_mem_one
    · exact .inl Language.nil_mem_one
  fun_induction splitNumber signed cs with
  | case1 | case3 => exact hfront (Language.nil_mem_kstar _)
  | case2 signed c cs hc more ih =>
    by_cases hmark : isExponentMark c = true
    · rw [if_pos hmark] at ih
      obtain ⟨sign, hsign, parts, hparts, happ⟩ := Language.mem_mul.mp ih
      refine hfront ?_
      have hpart : c :: sign ∈ numberPart :=
        .inr (Language.append_mem_mul (singleton_mem_chars.mpr hmark) hsign)
      have hall := append_mem_kstar hpart hparts
      rwa [List.cons_append, happ] at hall
    · rw [if_neg hmark, one_mul] at ih
      by_cases hsign : isSign c = true ∧ signed = true
      · rw [if_pos hsign.2]
        have hfirst : [c] ∈ 1 + chars isSign := .inr (singleton_mem_chars.mpr hsign.1)
        exact Language.append_mem_mul hfirst ih
      · have hpart : [c] ∈ numberPart := by
          refine .inl (singleton_mem_chars.mpr ?_)
          simp only [Bool.not_eq_true] at hmark
          simp only [hmark, Bool.or_false] at hc
          grind
        exact hfront (append_mem_kstar hpart ih)

/-- **Behind a number stands no character that goes on with it.** -/
theorem any_continuesNumber (c : Char) (cs : List Char) :
    (splitNumber (isExponentMark c) cs).2.head?.any (continuesNumber
      ((c :: (splitNumber (isExponentMark c) cs).1).getLast?.any isExponentMark)) = false := by
  induction cs generalizing c with
  | nil => rfl
  | cons d cs ih =>
    rw [splitNumber]
    split
    · rw [List.getLast?_cons_cons]
      exact ih d
    · next hd => simpa [continuesNumber] using hd

/-! ## Comments -/

/-- A character that does not open a mark is no step. -/
theorem nestingSteps_cons {depth : Nat} {c : Char} {cs : List Char}
    (hopen : ∀ ds, c = '/' → cs = '*' :: ds → False)
    (hzero : ∀ ds, depth = 0 → c = '*' → cs = '/' :: ds → False)
    (hsucc : ∀ inner ds, depth = inner + 1 → c = '*' → cs = '/' :: ds → False) :
    nestingSteps (c :: cs) = 0 :: nestingSteps cs := by
  rw [nestingSteps]
  · exact hopen
  · intro ds hc hcs
    cases depth with
    | zero => exact hzero ds rfl hc hcs
    | succ inner => exact hsucc inner ds rfl hc hcs

/-- With `n` comments open in front, one is open in front of each step. -/
def OpenBefore (n : Int) (steps : List Int) : Prop :=
  ∀ i < steps.length, 0 < n + (steps.take i).sum

theorem openBefore_nil (n : Int) : OpenBefore n [] := fun i hi => absurd hi (Nat.not_lt_zero i)

theorem openBefore_cons {n d : Int} {steps : List Int} :
    OpenBefore n (d :: steps) ↔ 0 < n ∧ OpenBefore (n + d) steps := by
  constructor
  · intro h
    refine ⟨by simpa using h 0 (by simp), fun i hi => ?_⟩
    simpa [add_assoc] using h (i + 1) (by simpa using hi)
  · rintro ⟨hn, h⟩ i hi
    cases i with
    | zero => simpa using hn
    | succ i => simpa [add_assoc] using h i (by simpa using hi)

/-- **A closed comment nests properly**: behind its last mark the comments open inside it and itself
are closed, and one of these is open before. -/
theorem nesting_of_closeComment {depth : Nat} {cs as bs : List Char}
    (h : closeComment depth cs = some (as, bs)) :
    (∃ body, as = body ++ ['*', '/']) ∧ depth + 1 + (nestingSteps as).sum = 0 ∧
      OpenBefore (depth + 1) (nestingSteps as) := by
  fun_induction closeComment depth cs generalizing as bs with
  | case1 depth cs ih =>
    obtain ⟨as, hclose, rfl⟩ := exists_of_map_eq_some (f := fun as => '/' :: '*' :: as) h
    obtain ⟨⟨body, hbody⟩, hsum, hopen⟩ := ih hclose
    push_cast at hsum hopen
    rw [nestingSteps, openBefore_cons, List.sum_cons]
    exact ⟨⟨'/' :: '*' :: body, by simp [hbody]⟩, by omega, by omega, hopen⟩
  | case2 cs =>
    cases h
    exact ⟨⟨[], rfl⟩, by decide, openBefore_cons.mpr ⟨by decide, openBefore_nil _⟩⟩
  | case3 depth cs ih =>
    obtain ⟨as, hclose, rfl⟩ := exists_of_map_eq_some (f := fun as => '*' :: '/' :: as) h
    obtain ⟨⟨body, hbody⟩, hsum, hopen⟩ := ih hclose
    rw [nestingSteps, openBefore_cons, List.sum_cons]
    push_cast
    rw [add_neg_cancel_right]
    exact ⟨⟨'*' :: '/' :: body, by simp [hbody]⟩, by omega, by omega, hopen⟩
  | case4 depth c cs hopen hzero hsucc ih =>
    obtain ⟨as, hclose, rfl⟩ := exists_of_map_eq_some h
    obtain ⟨⟨body, hbody⟩, hsum, hbefore⟩ := ih hclose
    -- the character next to `c` is part of the comment
    obtain ⟨hne, rfl⟩ := append_of_closeComment hclose
    obtain ⟨a, as, rfl⟩ := List.exists_cons_of_ne_nil hne
    have hstep : nestingSteps (c :: a :: as) = 0 :: nestingSteps (a :: as) :=
      nestingSteps_cons (fun ds hc h => hopen (ds ++ bs) hc (by rw [h]; rfl))
        (fun ds hdepth hc h => hzero (ds ++ bs) hdepth hc (by rw [h]; rfl))
        fun inner ds hdepth hc h => hsucc inner (ds ++ bs) hdepth hc (by rw [h]; rfl)
    rw [hstep, openBefore_cons, List.sum_cons, add_zero]
    exact ⟨⟨c :: body, by rw [hbody]; rfl⟩, by omega, by omega, hbefore⟩
  | case5 => exact absurd h (by simp)

/-- **In a comment that is not closed a comment stays open.** -/
theorem nesting_of_closeComment_eq_none {depth : Nat} {cs : List Char}
    (h : closeComment depth cs = none) :
    OpenBefore (depth + 1) (nestingSteps cs) ∧ 0 < depth + 1 + (nestingSteps cs).sum := by
  fun_induction closeComment depth cs with
  | case1 depth cs ih =>
    obtain ⟨hbefore, hsum⟩ := ih (Option.map_eq_none_iff.mp h)
    push_cast at hbefore hsum
    rw [nestingSteps, openBefore_cons, List.sum_cons]
    exact ⟨⟨by omega, hbefore⟩, by omega⟩
  | case2 cs => exact absurd h (by simp)
  | case3 depth cs ih =>
    obtain ⟨hbefore, hsum⟩ := ih (Option.map_eq_none_iff.mp h)
    rw [nestingSteps, openBefore_cons, List.sum_cons]
    push_cast
    rw [add_neg_cancel_right]
    exact ⟨⟨by omega, hbefore⟩, by omega⟩
  | case4 depth c cs hopen hzero hsucc ih =>
    obtain ⟨hbefore, hsum⟩ := ih (Option.map_eq_none_iff.mp h)
    rw [nestingSteps_cons hopen hzero hsucc, openBefore_cons, List.sum_cons, add_zero]
    exact ⟨⟨by omega, hbefore⟩, by omega⟩
  | case5 depth => exact ⟨openBefore_nil _, by simp only [nestingSteps, List.sum_nil]; omega⟩

theorem openInside_of_openBefore {cs : List Char} (h : OpenBefore 1 (nestingSteps cs)) :
    OpenInside ('/' :: '*' :: cs) := by
  intro i hi hlen
  rw [nestingSteps] at hlen ⊢
  obtain ⟨j, rfl⟩ := Nat.exists_eq_add_of_lt hi
  rw [Nat.zero_add, List.take_succ_cons, List.sum_cons]
  exact h j (by simpa using hlen)

theorem block_mem {cs as bs : List Char} (h : closeComment 0 cs = some (as, bs)) :
    '/' :: '*' :: as ∈ blockText := by
  obtain ⟨⟨body, hbody⟩, hsum, hbefore⟩ := nesting_of_closeComment h
  refine ⟨⟨body, by rw [hbody]; rfl⟩, openInside_of_openBefore hbefore, ?_⟩
  rw [nestingSteps, List.sum_cons]
  simpa using hsum

theorem unclosedBlock_mem {cs : List Char} (h : closeComment 0 cs = none) :
    '/' :: '*' :: cs ∈ unclosedBlock := by
  obtain ⟨hbefore, hsum⟩ := nesting_of_closeComment_eq_none h
  refine ⟨List.prefix_append ['/', '*'] cs, openInside_of_openBefore hbefore, ?_⟩
  rw [nestingSteps, List.sum_cons]
  simpa using hsum

/-- A text without steps is empty. -/
theorem eq_nil_of_nestingSteps {cs : List Char} (h : nestingSteps cs = []) : cs = [] := by
  fun_cases nestingSteps cs <;> simp_all [nestingSteps]

/-- **A text that nests properly is a comment**, whatever follows: with `depth` comments open inside
it is closed behind the text. -/
theorem closeComment_append {depth : Nat} {as : List Char}
    (hsum : depth + 1 + (nestingSteps as).sum = 0)
    (hopen : OpenBefore (depth + 1) (nestingSteps as)) (bs : List Char) :
    closeComment depth (as ++ bs) = some (as, bs) := by
  fun_induction nestingSteps as generalizing depth with
  | case1 cs ih =>
    rw [List.sum_cons] at hsum
    obtain ⟨-, hopen⟩ := openBefore_cons.mp hopen
    have hinner : closeComment (depth + 1) (cs ++ bs) = some (cs, bs) := by
      refine ih ?_ ?_
      · push_cast
        omega
      · push_cast
        exact hopen
    rw [List.cons_append, List.cons_append, closeComment, hinner]
    rfl
  | case2 cs ih =>
    rw [List.sum_cons] at hsum
    obtain ⟨-, hopen⟩ := openBefore_cons.mp hopen
    cases depth with
    | zero =>
      -- nothing is open behind the mark, so it is the last step
      cases hsteps : nestingSteps cs with
      | nil =>
        rw [eq_nil_of_nestingSteps hsteps]
        rfl
      | cons d steps =>
        rw [hsteps, openBefore_cons] at hopen
        exact absurd hopen.1 (by simp)
    | succ depth =>
      push_cast at hsum hopen
      rw [add_neg_cancel_right] at hopen
      rw [List.cons_append, List.cons_append, closeComment, ih (by omega) hopen]
      rfl
  | case3 c cs hslash hstar ih =>
    rw [List.sum_cons, zero_add] at hsum
    obtain ⟨-, hopen⟩ := openBefore_cons.mp hopen
    rw [add_zero] at hopen
    -- the comment is not yet closed, so another character of it follows
    obtain ⟨d, ds, rfl⟩ : ∃ d ds, cs = d :: ds := by
      refine List.exists_cons_of_ne_nil ?_
      rintro rfl
      simp only [nestingSteps, List.sum_nil] at hsum
      omega
    rw [List.cons_append, closeComment_cons, ih hsum hopen]
    · rfl
    · rintro ⟨rfl, hd⟩
      exact hslash ds rfl (by simpa using hd)
    · rintro ⟨rfl, hd⟩
      exact hstar ds rfl (by simpa using hd)
  | case4 =>
    rw [List.sum_nil] at hsum
    omega

theorem closeComment_of_mem {as : List Char} (h : '/' :: '*' :: as ∈ blockText) (bs : List Char) :
    closeComment 0 (as ++ bs) = some (as, bs) := by
  obtain ⟨-, hinside, hsum⟩ := h
  rw [nestingSteps, List.sum_cons] at hsum
  refine closeComment_append (by simpa using hsum) (fun i hi => ?_) bs
  have hbefore := hinside (i + 1) (Nat.succ_pos i) (by simpa [nestingSteps] using hi)
  simpa [nestingSteps] using hbefore

/-! ## Trivia -/

/-- The end of a line is white space. -/
theorem isSpace_of_isLineBreak {b : Char} (h : isLineBreak b = true) : isSpace b = true := by
  rcases Bool.or_eq_true_iff.mp h with hb | hb <;> simp [isSpace, of_decide_eq_true hb]

/-- Trivia behind white space is trivia. -/
theorem mem_triviaText_of_cons {b : Char} {cs : List Char} (hb : isSpace b = true)
    (h : b :: cs ∈ triviaText) : cs ∈ triviaText := by
  obtain ⟨parts, hparts, hmem⟩ := Language.mem_kstar_iff_exists_nonempty.mp h
  cases parts with
  | nil => cases hparts
  | cons part parts =>
    obtain ⟨hpart, hne⟩ := hmem part List.mem_cons_self
    obtain ⟨a, as, rfl⟩ := List.exists_cons_of_ne_nil hne
    obtain ⟨rfl, rfl⟩ := List.cons.inj hparts
    -- the part that opens with white space is the white space
    have has : as = [] := by
      rcases hpart with (⟨c, -, heq⟩ | ⟨line, ⟨dashes, hdashes, rest, -, rfl⟩, last, -, heq⟩) |
        ⟨⟨body, heq⟩, -⟩
      · exact (List.cons.inj heq).2
      · obtain rfl : dashes = ['-', '-'] := hdashes
        cases heq
        exact absurd hb (by decide)
      · cases heq
        exact absurd hb (by decide)
    subst has
    exact Language.join_mem_kstar fun y hy => (hmem y (List.mem_cons_of_mem _ hy)).1

/-- **What is cut off in front of a name is white space and comments.** -/
theorem splitTrivia_mem {cs ds : List Char} {d : Char} (h : (splitTrivia cs).2 = d :: ds) :
    (splitTrivia cs).1 ∈ triviaText := by
  fun_induction splitTrivia cs with
  | case1 cs line more ih =>
    have hbreak : line.2.head?.any (!isLineBreak ·) = false := any_head?_dropWhile _ cs
    cases hline : line.2 with
    | nil => simp [more, hline] at h
    | cons b rest =>
      rw [hline] at hbreak
      have hb : isLineBreak b = true := by simpa using hbreak
      have hspace := isSpace_of_isLineBreak hb
      have hmore : splitTrivia (b :: rest) = (b :: (splitTrivia rest).1, (splitTrivia rest).2) := by
        have hline : b ≠ '-' := by rintro rfl; exact absurd hspace (by decide)
        have hblock : b ≠ '/' := by rintro rfl; exact absurd hspace (by decide)
        rw [splitTrivia_cons (fun h => hline h.1) (fun h => hblock h.1), if_pos hspace]
      have hbehind := ih h
      simp only [more, hline, hmore] at hbehind ⊢
      have hpart : '-' :: '-' :: (line.1 ++ [b]) ∈ lineText * chars isLineBreak :=
        Language.append_mem_mul (line_mem cs) (singleton_mem_chars.mpr hb)
      have hall : '-' :: '-' :: (line.1 ++ [b]) ++ (splitTrivia rest).1 ∈ triviaText :=
        append_mem_kstar (.inl (.inr hpart)) (mem_triviaText_of_cons hspace hbehind)
      simpa only [List.cons_append, List.append_assoc, List.nil_append] using hall
  | case2 cs comment after hclose more ih =>
    exact append_mem_kstar (.inr (block_mem hclose)) (ih h)
  | case3 cs hclose => exact absurd h (by simp)
  | case4 c cs hline hblock hspace more ih =>
    exact append_mem_kstar (.inl (.inl (singleton_mem_chars.mpr hspace))) (ih h)
  | case5 c cs hline hblock hspace => exact Language.nil_mem_kstar _
  | case6 => exact absurd h (by simp)

end SqlScript.Lexeme
