import Mathlib.Data.List.Forall2
import SqlScript.Proofs.Lexeme.Lookahead
import SqlScript.Proofs.Script.Tiling

/-!
# Proofs/Script/Faults — every fault belongs to a word, and the word shows it

    words          SELECT   ?   a   \   'it
    diagnostics             ↑       ↑   ↑

The diagnostics of a script and its illegal words go in pairs (`Script.explained_scan`): the text of
the word shows what is wrong with it (`LexicalFault.ofText?`), and the diagnostic stands where the
word starts.  A construct that is not closed takes up the rest of the script, so there is at most
one of these, at the end.
-/

namespace SqlScript

open SqlScript.Text

/-- The marks that open what can be left open, each with the fault that this is. -/
def LexicalFault.openings : List (List Char × LexicalFault) :=
  [([singleQuote], .unterminatedString),
   (['N', singleQuote], .unterminatedString),
   (['n', singleQuote], .unterminatedString),
   (['/', '*'], .unterminatedComment),
   (['['], .unterminatedIdentifier),
   ([doubleQuote], .unterminatedIdentifier)]

/-- **What is wrong with an illegal word**, told by its text. -/
def LexicalFault.ofText? (text : List Char) : Option LexicalFault :=
  match openings.find? (·.1.isPrefixOf text) with
  | some opening => some opening.2
  | none => if let [ch] := text then some (.illegalCharacter ch) else none

/-! ## Faults of lexemes -/

namespace Lexeme

/-- A lexeme is illegal exactly if it has a fault, and its text shows the fault. -/
structure ShowsFault (l : Lexeme) : Prop where
  illegal_iff : l.token = .illegal ↔ l.fault.isSome = true
  ofText? : ∀ fault ∈ l.fault, LexicalFault.ofText? l.text = some fault

theorem showsFault_plain {t : Token} (h : t ≠ .illegal) (as bs : List Char) :
    (plain t as bs).ShowsFault :=
  ⟨by simp [plain, h], by simp [plain]⟩

theorem showsFault_closed {token : Token} {fault : LexicalFault} {front cs : List Char}
    {close : List Char → Option (List Char × List Char)} (htoken : token ≠ .illegal)
    (hfault : LexicalFault.ofText? (front ++ cs) = some fault) :
    (closed token fault front cs close).ShowsFault := by
  rcases closed_cases token fault front cs close with ⟨text, rest, hword⟩ | hword
  · rw [hword]
    exact showsFault_plain htoken text rest
  · rw [hword]
    exact ⟨by simp [unclosed], by simp [unclosed, hfault]⟩

theorem ofWord_ne_illegal (text : String) : Token.ofWord text ≠ .illegal := fun h => by
  have hmakes := makes_ofWord text
  rw [h] at hmakes
  cases hmakes

/-- A character that opens no other word shows that it is illegal. -/
theorem ofText?_singleton {c : Char} (hbracket : c ≠ '[') (hdouble : c ≠ doubleQuote)
    (hsingle : c ≠ singleQuote) :
    LexicalFault.ofText? [c] = some (.illegalCharacter c) := by
  have hopening : LexicalFault.openings.find? (·.1.isPrefixOf [c]) = none := by
    simp [LexicalFault.openings, hbracket.symm, hdouble.symm, hsingle.symm]
  rw [LexicalFault.ofText?, hopening]

/-- **A word is illegal exactly if it has a fault, and its text shows which.** -/
theorem showsFault_read (c : Char) (cs : List Char) : (read c cs).ShowsFault := by
  have hshows := shows_of c cs.head?
  unfold read
  cases hkind : Opening.of c cs.head? with
  | nationalString =>
    rw [hkind] at hshows
    obtain ⟨hc, hquote⟩ := hshows
    obtain ⟨ds, rfl⟩ := List.head?_eq_some_iff.mp hquote
    refine showsFault_closed (by simp) ?_
    rcases hc with rfl | rfl <;> rfl
  | string =>
    rw [hkind] at hshows
    obtain rfl : c = singleQuote := hshows
    exact showsFault_closed (by simp) rfl
  | delimited mark =>
    rw [hkind] at hshows
    refine showsFault_closed (by simp) ?_
    rcases hshows with ⟨rfl, -⟩ | ⟨rfl, -⟩ <;> rfl
  | name =>
    dsimp only
    rcases ofName_cases (c :: (splitName cs).1) (splitName cs).2 with hword | ⟨k, _, _, _, hword⟩
    · rw [hword]
      exact showsFault_plain (ofWord_ne_illegal _) _ _
    · rw [hword]
      exact ⟨by simp [phrase], by simp [phrase]⟩
  | number =>
    refine showsFault_plain ?_ _ _
    unfold numberToken
    split <;> simp
  | lineComment => exact showsFault_plain (by simp) _ _
  | blockComment =>
    rw [hkind] at hshows
    obtain ⟨rfl, hstar⟩ := hshows
    obtain ⟨ds, rfl⟩ := List.head?_eq_some_iff.mp hstar
    exact showsFault_closed (by simp) rfl
  | operator =>
    rw [hkind] at hshows
    obtain ⟨hbracket, hdouble, hsingle, -⟩ := hshows
    dsimp only
    rcases readOperator_cases c cs with ⟨s, _, _, hword⟩ | ⟨rest, hword⟩
    · rw [hword]
      exact showsFault_plain (by simp) _ _
    · rw [hword]
      exact ⟨by simp, by simp [ofText?_singleton hbracket hdouble hsingle]⟩

end Lexeme

/-! ## Faults of rows -/

/-- A word that is not closed is the last of its row, and nothing follows it. -/
theorem Tiling.eq_nil_of_isUnclosed {cs tail : List Char} {pre post : List Tile} {t : Tile}
    (h : Tiling cs (pre ++ t :: post) tail) (hunclosed : t.lexeme.isUnclosed = true) :
    post = [] ∧ tail = [] := by
  obtain ⟨c, ds, -, hread, hbehind⟩ := h.exists_read
  rw [hread] at hunclosed hbehind
  rw [Lexeme.rest_of_isUnclosed hunclosed] at hbehind
  exact hbehind.eq_nil

/-- Only the last word of a row can be one that is not closed. -/
theorem Tiling.isUnclosed_eq_false {cs tail : List Char} {ts : List Tile} {t : Tile}
    (h : Tiling cs (ts ++ [t]) tail) : ∀ u ∈ ts, u.lexeme.isUnclosed = false := by
  intro u hu
  obtain ⟨pre, post, rfl⟩ := List.append_of_mem hu
  rw [List.append_assoc, List.cons_append] at h
  refine Bool.eq_false_iff.mpr fun hunclosed => ?_
  exact List.append_ne_nil_of_right_ne_nil post (List.cons_ne_nil t [])
    (h.eq_nil_of_isUnclosed hunclosed).1

/-- What is kept of a list by two tests that agree goes in pairs. -/
theorem forall₂_filter_filterMap {α β γ : Type} {R : β → γ → Prop} {f : α → β} {p : β → Bool}
    {g : α → Option γ} {l : List α} (hkept : ∀ a ∈ l, p (f a) = (g a).isSome)
    (hpair : ∀ a ∈ l, ∀ c ∈ g a, R (f a) c) :
    List.Forall₂ R ((l.map f).filter p) (l.filterMap g) := by
  induction l with
  | nil => exact .nil
  | cons a l ih =>
    have hbehind := ih (fun b hb => hkept b (List.mem_cons_of_mem a hb))
      fun b hb => hpair b (List.mem_cons_of_mem a hb)
    have hfront := hkept a List.mem_cons_self
    cases hg : g a with
    | none =>
      rw [hg] at hfront
      rwa [List.map_cons, List.filter_cons_of_neg (by simp [hfront]), List.filterMap_cons_none hg]
    | some c =>
      rw [hg] at hfront
      rw [List.map_cons, List.filter_cons_of_pos (by simp [hfront]), List.filterMap_cons_some hg]
      exact .cons (hpair a List.mem_cons_self c hg) hbehind

/-- Behind at most one element the last element is cut off from no further. -/
theorem mem_of_mem_dropLast {α : Type} {as bs : List α} {a : α} (h : a ∈ (as ++ bs).dropLast)
    (hbs : bs.length ≤ 1) : a ∈ as := by
  match bs, hbs with
  | [], _ => exact List.dropLast_subset as (by rwa [List.append_nil] at h)
  | [b], _ => rwa [List.dropLast_concat] at h

/-! ## Diagnostics of scripts -/

/-- The diagnostic says that the script ended before a construct was closed. -/
def Diagnostic.isUnterminated (d : Diagnostic) : Bool :=
  match d.cause with
  | .lexical fault => fault.isUnterminated
  | _ => false

namespace Script

/-- **A diagnostic explains an illegal word**: it stands where the word starts and says what the
text of the word shows; a construct that is not closed is the last word and reaches to the end of
the script. -/
structure Explains (s : Script) (w : Word) (d : Diagnostic) : Prop where
  position : d.position = s.position w.span.start
  cause : ∃ fault, LexicalFault.ofText? (s.text w) = some fault ∧ d.cause = .lexical fault
  last : d.isUnterminated = true → s.words.getLast? = some w ∧ w.span.stop = s.size

/-- A word with a fault is explained by the diagnostic made of the fault. -/
theorem Tiled.explains {s : Script} {front body tail : List Char} {pre post : List Tile} {t : Tile}
    {fault : LexicalFault} (h : s.Tiled front (pre ++ t :: post) tail)
    (htiling : Tiling body (pre ++ t :: post) tail) (hfault : t.lexeme.fault = some fault) :
    s.Explains (t.word (width front + width (pre.flatMap Tile.text)))
      ⟨s.position (t.word (width front + width (pre.flatMap Tile.text))).span.start,
        .lexical fault⟩ := by
  have hshows := htiling.forall_lexeme Lexeme.showsFault_read t (by simp)
  refine ⟨rfl, ⟨fault, ?_, rfl⟩, fun hunterminated => ?_⟩
  · rw [h.text_eq]
    exact hshows.ofText? fault hfault
  · have hunclosed : t.lexeme.isUnclosed = true := by
      rw [Lexeme.isUnclosed, hfault]
      exact hunterminated
    obtain ⟨rfl, rfl⟩ := htiling.eq_nil_of_isUnclosed hunclosed
    constructor
    · rw [h.words_eq, scannedFrom_append, List.map_append]
      exact List.getLast?_concat
    · rw [Tile.stop_word, size, h.source_eq]
      simp [Nat.add_assoc]

/-- **The diagnostics of a script explain its illegal words one by one**, and only the last can be
about a construct that is not closed. -/
theorem explained_scan (name source : String) :
    let s := scan name source
    List.Forall₂ s.Explains (s.words.filter (·.token == .illegal)) s.diagnostics ∧
      ∀ d ∈ s.diagnostics.dropLast, d.isUnterminated = false := by
  intro s
  obtain ⟨front, body, ts, tail, -, -, htiling, htiled⟩ := exists_tiled name source
  constructor
  · refine forall₂_filter_filterMap (fun entry hentry => ?_) fun entry hentry d hd => ?_
    · rw [htiled.scanned_eq] at hentry
      obtain ⟨pre, t, post, rfl, rfl⟩ := exists_tile_of_entry hentry
      have hshows := htiling.forall_lexeme Lexeme.showsFault_read t (by simp)
      rw [Option.isSome_map, Bool.eq_iff_iff, beq_iff_eq]
      exact hshows.illegal_iff
    · rw [htiled.scanned_eq] at hentry
      obtain ⟨pre, t, post, rfl, rfl⟩ := exists_tile_of_entry hentry
      obtain ⟨fault, hfault, rfl⟩ := Option.map_eq_some_iff.mp hd
      exact htiled.explains htiling hfault
  · intro d hd
    rcases List.eq_nil_or_concat ts with rfl | ⟨init, t, rfl⟩
    · rw [diagnostics, htiled.scanned_eq] at hd
      exact absurd hd List.not_mem_nil
    rw [List.concat_eq_append] at htiling htiled
    rw [diagnostics, htiled.scanned_eq, scannedFrom_append, List.filterMap_append] at hd
    -- what the last word gives is at most one diagnostic, so `d` belongs to a word before it
    replace hd := mem_of_mem_dropLast hd (by rw [scannedFrom]; exact List.length_filterMap_le _ _)
    obtain ⟨entry, hentry, hd⟩ := List.mem_filterMap.mp hd
    obtain ⟨fault, hfault, rfl⟩ := Option.map_eq_some_iff.mp hd
    obtain ⟨pre, u, post, rfl, rfl⟩ := exists_tile_of_entry hentry
    have hclosed := htiling.isUnclosed_eq_false u (by simp)
    rw [Lexeme.isUnclosed, show u.lexeme.fault = some fault from hfault] at hclosed
    exact hclosed

/-- A character that opens no word, and a string that is not closed behind a phrase that is not
made. -/
theorem explained_scan_unclosed :
    let s := scan "q" "a ? GROUP n'it"
    s.diagnostics.map Diagnostic.cause =
        [.lexical (.illegalCharacter '?'), .lexical .unterminatedString] ∧
      List.Forall₂ s.Explains (s.words.filter (·.token == .illegal)) s.diagnostics ∧
      ∀ d ∈ s.diagnostics.dropLast, d.isUnterminated = false :=
  ⟨by decide +kernel, explained_scan "q" "a ? GROUP n'it"⟩

end Script

end SqlScript
