import SqlScript.Query.Session

/-!
# Query/Cursor — the words a session passes

A session over the words of a script stands in front of a **suffix of its visible words**, and every
operation keeps it there.  Visible words come in the order of their indices, so the words passed
between two stands are those whose indices lie between the two offsets: a range of indices tells
which words were read.
-/

namespace SqlScript

/-! ## Visible words come in order -/

/-- The visible words of a range of a script. -/
def WordRange.visible (r : WordRange) (words : List Word) : List Placed :=
  (Placed.visible words).filter fun p => r.start ≤ p.index ∧ p.index < r.stop

/-- Visible words are sorted by their indices. -/
theorem pairwise_visible (words : List Word) :
    (Placed.visible words).Pairwise fun p q => p.index < q.index := by
  refine List.Pairwise.filter _ (List.pairwise_map.mpr ?_)
  have hsorted : (words.zipIdx.map Prod.snd).Pairwise (· < ·) := by
    rw [List.zipIdx_map_snd]
    exact List.pairwise_lt_range'
  exact List.pairwise_map.mp hsorted

/-- Every visible word lies inside the script. -/
theorem index_lt_of_mem_visible {words : List Word} {p : Placed} (h : p ∈ Placed.visible words) :
    p.index < words.length := by
  obtain ⟨⟨w, i⟩, hmem, rfl⟩ := List.mem_map.mp (List.mem_filter.mp h).1
  have hlt := List.snd_lt_of_mem_zipIdx hmem
  simpa using hlt

/-- Visible words start inside the script, or at its end. -/
theorem offset_le_length {words : List Word} {ws : List Placed} (h : ws <:+ Placed.visible words) :
    Grammar.offset words.length ws ≤ words.length := by
  cases ws with
  | nil => exact Nat.le_refl _
  | cons p ps => exact Nat.le_of_lt (index_lt_of_mem_visible (h.subset List.mem_cons_self))

/-- Words in front of some others have smaller indices than these. -/
theorem index_lt_offset {size : Nat} {us ws : List Placed} {p : Placed}
    (hsorted : (us ++ ws).Pairwise fun p q => p.index < q.index)
    (hsize : ∀ p ∈ us ++ ws, p.index < size) (hp : p ∈ us) :
    p.index < Grammar.offset size ws := by
  cases ws with
  | nil => exact hsize p (List.mem_append_left _ hp)
  | cons q qs => exact (List.pairwise_append.mp hsorted).2.2 p hp q List.mem_cons_self

/-- Words have no smaller indices than the first of them. -/
theorem offset_le_index {size : Nat} {ws : List Placed} {p : Placed}
    (hsorted : ws.Pairwise fun p q => p.index < q.index) (hp : p ∈ ws) :
    Grammar.offset size ws ≤ p.index := by
  cases ws with
  | nil => exact absurd hp List.not_mem_nil
  | cons q qs =>
    rcases List.mem_cons.mp hp with rfl | hmem
    · exact Nat.le_refl _
    · exact Nat.le_of_lt ((List.pairwise_cons.mp hsorted).1 p hmem)

/-- Words start no later than those they end with. -/
theorem offset_le_offset {size : Nat} {ws rest : List Placed} (h : rest <:+ ws)
    (hsorted : ws.Pairwise fun p q => p.index < q.index) (hsize : ∀ p ∈ ws, p.index < size) :
    Grammar.offset size ws ≤ Grammar.offset size rest := by
  cases rest with
  | cons p ps => exact offset_le_index hsorted (h.subset List.mem_cons_self)
  | nil =>
    cases ws with
    | nil => exact Nat.le_refl _
    | cons p ps => exact Nat.le_of_lt (hsize p List.mem_cons_self)

/-- Among words in order, those from one place on are the ones whose index is large enough. -/
theorem filter_offset_le {size : Nat} {us ws : List Placed}
    (hsorted : (us ++ ws).Pairwise fun p q => p.index < q.index)
    (hsize : ∀ p ∈ us ++ ws, p.index < size) :
    (us ++ ws).filter (fun p => Grammar.offset size ws ≤ p.index) = ws := by
  have hus : us.filter (fun p => Grammar.offset size ws ≤ p.index) = [] :=
    List.filter_eq_nil_iff.mpr fun p hp => by
      simpa using index_lt_offset hsorted hsize hp
  have hws : ws.filter (fun p => Grammar.offset size ws ≤ p.index) = ws :=
    List.filter_eq_self.mpr fun p hp =>
      decide_eq_true (offset_le_index (List.pairwise_append.mp hsorted).2.1 hp)
  rw [List.filter_append, hus, hws, List.nil_append]

/-- Among words in order, those up to one place are the ones whose index is small enough. -/
theorem filter_lt_offset {size : Nat} {us ws : List Placed}
    (hsorted : (us ++ ws).Pairwise fun p q => p.index < q.index)
    (hsize : ∀ p ∈ us ++ ws, p.index < size) :
    (us ++ ws).filter (fun p => p.index < Grammar.offset size ws) = us := by
  have hus : us.filter (fun p => p.index < Grammar.offset size ws) = us :=
    List.filter_eq_self.mpr fun p hp => decide_eq_true (index_lt_offset hsorted hsize hp)
  have hws : ws.filter (fun p => p.index < Grammar.offset size ws) = [] :=
    List.filter_eq_nil_iff.mpr fun p hp => by
      simpa using offset_le_index (List.pairwise_append.mp hsorted).2.1 hp
  rw [List.filter_append, hus, hws, List.append_nil]

/-! ## Sessions over a script -/

namespace Session

/-- A session stands among the words of a script. -/
structure Over (words : List Word) (s : Session) : Prop where
  size_eq : s.size = words.length
  suffix : s.rest <:+ Placed.visible words

theorem over_ofWords (words : List Word) : (ofWords words).Over words :=
  ⟨rfl, List.suffix_refl _⟩

/-- **Parsers that only move forward keep a session over its script.** -/
theorem Over.run {α : Type} {words : List Word} {s : Session} (h : s.Over words) {p : Parse α}
    (hp : p.Forward) : (s.run p).2.Over words :=
  ⟨h.size_eq, (hp s.rest).trans h.suffix⟩

/-- **The range between two stands of a session holds exactly the words passed between them.** -/
theorem Over.visible_range {words : List Word} {s : Session} (h : s.Over words)
    {us rest : List Placed} (hs : s.rest = us ++ rest) :
    WordRange.visible ⟨s.offset, Grammar.offset s.size rest⟩ words = us := by
  obtain ⟨pre, hpre⟩ := h.suffix
  have hsorted := pairwise_visible words
  have hsize : ∀ p ∈ Placed.visible words, p.index < s.size :=
    fun p hp => h.size_eq ▸ index_lt_of_mem_visible hp
  rw [← hpre] at hsorted hsize
  have hsorted' := (List.pairwise_append.mp hsorted).2.1
  have hsize' : ∀ p ∈ s.rest, p.index < s.size := fun p hp => hsize p (List.mem_append_right _ hp)
  rw [hs] at hsorted' hsize'
  calc WordRange.visible ⟨s.offset, Grammar.offset s.size rest⟩ words
      = ((pre ++ s.rest).filter fun p => s.offset ≤ p.index).filter
          fun p => p.index < Grammar.offset s.size rest := by
        rw [WordRange.visible, ← hpre, List.filter_filter]
        exact List.filter_congr fun p _ => by rw [Bool.decide_and, Bool.and_comm]
    _ = s.rest.filter fun p => p.index < Grammar.offset s.size rest :=
        congrArg _ (filter_offset_le hsorted hsize)
    _ = us := by rw [hs, filter_lt_offset hsorted' hsize']

end Session

end SqlScript
