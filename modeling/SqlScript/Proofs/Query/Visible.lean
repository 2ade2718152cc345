import SqlScript.Proofs.Query.Carried
import SqlScript.Proofs.Query.Cursor

/-!
# Query/Visible — what changing a list of words does to the words the grammar reads

Spelling or placing words otherwise, putting two lists behind each other and leaving out the
comments each relabel the visible words: their literals and spans change (`visible_map`), their
indices move up by the number of words in front (`visible_append`), or they count visible words only
(`visible_uncommented`).  A script is read accordingly (`Session.statements_map`).
-/

namespace SqlScript

/-- The visible words are the words that are no comments, each with its index. -/
theorem mem_visible_iff {words : List Word} {p : Placed} :
    p ∈ Placed.visible words ↔ words[p.index]? = some p.word ∧ p.word.isComment = false := by
  have hplaced : p ∈ words.zipIdx.map (fun q => (⟨q.2, q.1⟩ : Placed)) ↔
      words[p.index]? = some p.word := by
    rw [← List.mk_mem_zipIdx_iff_getElem?, List.mem_map]
    constructor
    · rintro ⟨q, hq, rfl⟩
      exact hq
    · exact fun h => ⟨_, h, rfl⟩
  rw [Placed.visible, List.mem_filter, hplaced, Bool.not_eq_true']

/-- What stands at the index of some visible words is the first of them. -/
theorem getElem?_offset {words : List Word} {ws : List Placed} (h : ws <:+ Placed.visible words) :
    words[Grammar.offset words.length ws]? = ws.head?.map Placed.word := by
  cases ws with
  | nil => exact List.getElem?_eq_none (Nat.le_refl _)
  | cons p ps => exact (mem_visible_iff.mp (h.subset List.mem_cons_self)).1

/-- The words of a script that are no comments are its visible words. -/
theorem filter_eq_map_visible (words : List Word) :
    words.filter (!·.isComment) = (Placed.visible words).map Placed.word := by
  have hwords := List.filter_map (p := fun w : Word => !w.isComment) (f := Prod.fst)
    (l := words.zipIdx)
  rw [List.zipIdx_map_fst] at hwords
  rw [hwords, Placed.visible, List.filter_map, List.map_map]
  rfl

/-! ## Other spellings and places -/

/-- Words in other spellings or at other places are visible with the indices they had. -/
theorem visible_map {r : Relabelling} (hindex : r.index = id) (words : List Word) :
    Placed.visible (words.map r.word) = (Placed.visible words).map r.placed := by
  obtain ⟨index, literal, span⟩ := r
  subst hindex
  rw [Placed.visible, Placed.visible, List.zipIdx_map, List.map_map, List.filter_map,
    List.filter_map, List.map_map]
  rfl

/-- **A script in other spellings or at other places has the same statements over such words.** -/
theorem Session.statements_map {r : Relabelling} (hindex : r.index = id) (words : List Word) :
    let found := (ofWords words).statements
    let relabelled := (ofWords (words.map r.word)).statements
    relabelled.1 = found.1.map r.query ∧ relabelled.2.faults = found.2.faults.map r.fault := by
  have hrelabel := Grammar.statements_relabel r words.length (Placed.visible words)
  have hsize : r.index words.length = (words.map r.word).length := by
    rw [hindex, List.length_map]
    rfl
  rw [hsize, ← visible_map hindex] at hrelabel
  exact hrelabel

/-! ## Words behind others -/

/-- Indices moved up by `n`. -/
def Relabelling.shift (n : Nat) : Relabelling := { index := (· + n) }

/-- **Words behind others are visible with their indices moved up.** -/
theorem visible_append (us vs : List Word) :
    Placed.visible (us ++ vs) = Placed.visible us ++
      (Placed.visible vs).map (Relabelling.shift us.length).placed := by
  have hshift := List.map_snd_add_zipIdx_eq_zipIdx (l := vs) (n := us.length) (k := 0)
  have hbehind : ((vs.zipIdx us.length).map fun p => (⟨p.2, p.1⟩ : Placed)).filter
        (fun p => !p.word.isComment) =
      (Placed.visible vs).map (Relabelling.shift us.length).placed := by
    rw [Nat.add_zero] at hshift
    rw [← hshift, Placed.visible, List.map_map, List.filter_map, List.filter_map, List.map_map]
    rfl
  rw [Placed.visible, List.zipIdx_append, List.map_append, List.filter_append, Nat.zero_add,
    hbehind]
  rfl

theorem visible_cons (w : Word) (ws : List Word) :
    Placed.visible (w :: ws) = (if w.isComment then [] else [⟨0, w⟩]) ++
      (Placed.visible ws).map (Relabelling.shift 1).placed := by
  have hw : Placed.visible [w] = if w.isComment then [] else [⟨0, w⟩] := by
    cases h : w.isComment <;> simp [Placed.visible, h]
  rw [← hw]
  exact visible_append [w] ws

/-- A word behind others that is no comment is visible at their end. -/
theorem visible_concat {w : Word} (hw : w.isComment = false) (us : List Word) :
    Placed.visible (us ++ [w]) = Placed.visible us ++ [⟨us.length, w⟩] := by
  rw [visible_append, visible_cons, hw]
  simp [Relabelling.placed, Relabelling.word, Relabelling.shift, Placed.visible]

/-- The visible words around a word that is no comment. -/
theorem visible_around {w : Word} (hw : w.isComment = false) (us vs : List Word) :
    Placed.visible (us ++ [w] ++ vs) = Placed.visible us ++
      ⟨us.length, w⟩ :: (Placed.visible vs).map (Relabelling.shift (us.length + 1)).placed := by
  rw [visible_append, visible_concat hw, List.length_append, List.append_assoc]
  rfl

/-! ## Without comments -/

/-- How many words in front of an index are no comments. -/
def visibleBefore (words : List Word) (i : Nat) : Nat := (words.take i).countP (!·.isComment)

/-- Indices that count visible words only. -/
def Relabelling.uncommented (words : List Word) : Relabelling := { index := visibleBefore words }

theorem visibleBefore_cons_succ (w : Word) (ws : List Word) (i : Nat) :
    visibleBefore (w :: ws) (i + 1) = visibleBefore ws i + if w.isComment then 0 else 1 := by
  cases h : w.isComment <;> simp [visibleBefore, h]

/-- Behind a word that is no comment the count goes up. -/
theorem visibleBefore_succ {words : List Word} {p : Placed} (h : p ∈ Placed.visible words) :
    visibleBefore words (p.index + 1) = visibleBefore words p.index + 1 := by
  obtain ⟨hword, hcomment⟩ := mem_visible_iff.mp h
  simp [visibleBefore, List.take_add_one, hword, hcomment]

/-- **Without the comments the same words are visible, with their indices counted anew.** -/
theorem visible_uncommented (words : List Word) :
    Placed.visible (words.filter (!·.isComment)) =
      (Placed.visible words).map (Relabelling.uncommented words).placed := by
  induction words with
  | nil => rfl
  | cons w ws ih =>
    have hmove : (Relabelling.uncommented (w :: ws)).placed ∘ (Relabelling.shift 1).placed =
        (Relabelling.shift (if w.isComment then 0 else 1)).placed ∘
          (Relabelling.uncommented ws).placed := by
      funext p
      exact congrArg (Placed.mk · p.word) (visibleBefore_cons_succ w ws p.index)
    rw [visible_cons, List.map_append, List.map_map, hmove, ← List.map_map, ← ih]
    cases hw : w.isComment with
    | true =>
      rw [List.filter_cons_of_neg (by simp [hw])]
      exact (List.map_id _).symm
    | false =>
      rw [List.filter_cons_of_pos (by simp [hw]), visible_cons, hw]
      rfl

end SqlScript
