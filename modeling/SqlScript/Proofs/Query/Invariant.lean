import SqlScript.Proofs.Lexeme.Lookahead
import SqlScript.Proofs.Query.Trail
import SqlScript.Proofs.Query.Visible
import SqlScript.Proofs.Script.Lossless
import SqlScript.Proofs.Script.Places
import SqlScript.Script.Outline

/-!
# Query/Invariant — what holds of a session after any operations

Whatever is asked of a session, in whatever order, it has come along one trail from the first
visible word of its script (`Session.Reached`).  Each operation makes the trail longer
(`Reached.perform`), so the session stands at no comment, moves forward only and keeps the
diagnostics it has; and since faults are noted along the trail, they name visible words in their
order, or the end (`Session.sound_after`).
-/

namespace SqlScript

open SqlScript.Text

/-! ## Faults along a trail -/

namespace Trail

variable {ws rest : List Placed} {faults : List SyntaxFault}

/-- A fault names a word of the trail, or the end. -/
theorem found (h : Trail ws faults rest) {f : SyntaxFault} (hf : f ∈ faults) :
    f.found = none ∨ ∃ p ∈ ws, f.found = some p.word := by
  induction h with
  | stay ws => cases hf
  | pass h ih =>
    exact (ih hf).imp_right fun ⟨p, hp, hfound⟩ => ⟨p, List.mem_cons_of_mem _ hp, hfound⟩
  | @note ws rest faults e h ih =>
    rcases List.mem_cons.mp hf with rfl | hf
    · cases ws with
      | nil => exact .inl rfl
      | cons p ws => exact .inr ⟨p, List.mem_cons_self, rfl⟩
    · exact ih hf

/-- **Faults come in the order of the words they name**, the end last; and none of them names a word
in front of the trail. -/
theorem pairwise_found {start : Option Word → Nat} (h : Trail ws faults rest)
    (hsorted : ws.Pairwise fun p q => start (some p.word) ≤ start (some q.word))
    (hend : ∀ p ∈ ws, start (some p.word) ≤ start none) :
    (faults.Pairwise fun f g => start f.found ≤ start g.found) ∧
      ∀ f ∈ faults, start (ws.head?.map Placed.word) ≤ start f.found := by
  induction h with
  | stay ws => exact ⟨.nil, fun f hf => absurd hf List.not_mem_nil⟩
  | @pass p ws rest faults h ih =>
    rw [List.pairwise_cons] at hsorted
    rw [List.forall_mem_cons] at hend
    obtain ⟨hpairwise, hfirst⟩ := ih hsorted.2 hend.2
    have hnext : start (some p.word) ≤ start (ws.head?.map Placed.word) := by
      cases ws with
      | nil => exact hend.1
      | cons q ws => exact hsorted.1 q List.mem_cons_self
    exact ⟨hpairwise, fun f hf => hnext.trans (hfirst f hf)⟩
  | note e h ih =>
    obtain ⟨hpairwise, hfirst⟩ := ih hsorted hend
    exact ⟨List.pairwise_cons.mpr ⟨hfirst, hpairwise⟩,
      List.forall_mem_cons.mpr ⟨Nat.le_refl _, hfirst⟩⟩

end Trail

/-! ## Operations -/

namespace Session

/-- What can be asked of a session. -/
inductive Operation where
  | advance
  | current
  | peek
  | select
  | query
  | statements
  deriving DecidableEq

/-- The session after an operation; looking at a word does not move it. -/
def Operation.perform : Operation → Session → Session
  | advance, s => s.advance
  | current, s => s
  | peek, s => s
  | select, s => s.select?.2
  | query, s => s.query.2
  | statements, s => s.statements.2

/-- The session after a row of operations. -/
def after (s : Session) (ops : List Operation) : Session :=
  ops.foldl (fun s op => op.perform s) s

/-- The diagnostics that a session of a script has noted. -/
def diagnostics (s : Session) (script : Script) : List Diagnostic :=
  s.faults.map script.syntaxDiagnostic

/-- **An operation goes on along the trail.** -/
theorem Operation.exists_trail (op : Operation) (s : Session) :
    ∃ faults rest, Trail s.rest faults rest ∧
      op.perform s = { s with rest, faults := s.faults ++ faults } := by
  have hstay : s = { s with rest := s.rest, faults := s.faults ++ [] } := by
    rw [List.append_nil]
  cases op with
  | advance => exact ⟨[], _, .of_suffix (Parse.forward_advance _), rfl⟩
  | current => exact ⟨[], s.rest, .stay _, hstay⟩
  | peek => exact ⟨[], s.rest, .stay _, hstay⟩
  | select => exact ⟨_, _, Grammar.trails_select s.size s.rest, rfl⟩
  | query => exact ⟨_, _, Grammar.trails_query s.size s.offset s.rest, rfl⟩
  | statements => exact ⟨_, _, Grammar.trails_statements s.size s.rest, rfl⟩

/-- A session has come along a trail from the first visible word. -/
structure Reached (words : List Word) (s : Session) : Prop where
  size_eq : s.size = words.length
  trail : Trail (Placed.visible words) s.faults s.rest

namespace Reached

variable {words : List Word} {s : Session}

theorem ofWords (words : List Word) : (ofWords words).Reached words := ⟨rfl, .stay _⟩

/-- **An operation keeps a session on its trail.** -/
theorem perform (h : s.Reached words) (op : Operation) : (op.perform s).Reached words := by
  obtain ⟨faults, rest, htrail, hs⟩ := op.exists_trail s
  rw [hs]
  exact ⟨h.size_eq, h.trail.trans htrail⟩

theorem after (h : s.Reached words) (ops : List Operation) : (s.after ops).Reached words := by
  induction ops generalizing s with
  | nil => exact h
  | cons op ops ih => exact ih (h.perform op)

theorem mem_visible (h : s.Reached words) {p : Placed} (hp : p ∈ s.rest) :
    p ∈ Placed.visible words := h.trail.suffix.subset hp

theorem offset_le (h : s.Reached words) : s.offset ≤ words.length := by
  rw [offset, h.size_eq]
  exact offset_le_length h.trail.suffix

/-- The word at the offset is the current word. -/
theorem getElem?_offset (h : s.Reached words) : words[s.offset]? = s.current? := by
  rw [offset, h.size_eq]
  exact SqlScript.getElem?_offset h.trail.suffix

/-- The current word is no comment. -/
theorem current?_ne_comment (h : s.Reached words) {w : Word} (hw : s.current? = some w) :
    w.isComment = false := by
  obtain ⟨p, hp, rfl⟩ := Option.map_eq_some_iff.mp hw
  exact (mem_visible_iff.mp (h.mem_visible (List.mem_of_mem_head? hp))).2

/-- Further along its trail a session does not stand further back. -/
theorem offset_le_of_trail (h : s.Reached words) {faults : List SyntaxFault} {rest : List Placed}
    (htrail : Trail s.rest faults rest) : s.offset ≤ Grammar.offset s.size rest := by
  have hsorted := (pairwise_visible words).sublist h.trail.suffix.sublist
  refine offset_le_offset htrail.suffix hsorted fun p hp => ?_
  rw [h.size_eq]
  exact index_lt_of_mem_visible (h.mem_visible hp)

end Reached

/-- **What holds of a session of a script.** -/
structure Sound (script : Script) (s : Session) : Prop where
  /-- It stands at a word of the script, or at the end… -/
  offset_le : s.offset ≤ script.words.length
  /-- …and not at a comment. -/
  not_comment : ∀ w, script.word? s.offset = some w → w.isComment = false
  /-- A diagnostic is about a word that is no comment, at its start, or about the end. -/
  about : ∀ d ∈ s.diagnostics script, ∃ expected,
    (∃ w ∈ script.words, w.isComment = false ∧
      d = ⟨script.position w.span.start, .unexpectedToken expected w.token w.literal⟩) ∨
    d = ⟨script.position script.size, .unexpectedEnd expected⟩
  /-- It is about the end exactly when it is placed there. -/
  end_iff : ∀ d ∈ s.diagnostics script,
    (∃ expected, d.cause = .unexpectedEnd expected) ↔ d.position = script.position script.size
  /-- Diagnostics come in the order of lines and columns. -/
  sorted : (s.diagnostics script).Pairwise fun d e => d.position.place ≤ e.position.place

end Session

/-! ## Sessions of a script -/

namespace Script

theorem isEof_eq_false {name source : String} {w : Word} (hw : w ∈ (scan name source).words) :
    w.isEof = false := by
  obtain ⟨mark, body, ts, tail, -, -, htiling, htiled⟩ := exists_tiled name source
  rw [htiled.words_eq] at hw
  obtain ⟨pre, t, post, rfl, rfl⟩ := exists_tile_of_mem hw
  have htoken := htiling.forall_lexeme (P := fun l => l.token ≠ .eof) Lexeme.token_read_ne_eof t
    (by simp)
  exact beq_false_of_ne htoken

theorem word?_eq (s : Script) (i : Nat) : s.word? i = s.words[i]? := by
  rw [word?, words, List.getElem?_map]

/-- Where a fault is placed: at the start of the word it names, or at the end. -/
def faultStart (s : Script) (found : Option Word) : Nat := (found.getD s.eof).span.start

theorem syntaxDiagnostic_of_none (s : Script) {f : SyntaxFault} (h : f.found = none) :
    s.syntaxDiagnostic f = ⟨s.position s.size, .unexpectedEnd f.expected.text⟩ := by
  rw [syntaxDiagnostic, h]
  rfl

theorem syntaxDiagnostic_of_some (s : Script) {f : SyntaxFault} {w : Word} (h : f.found = some w)
    (hw : w.isEof = false) : s.syntaxDiagnostic f =
      ⟨s.position w.span.start, .unexpectedToken f.expected.text w.token w.literal⟩ := by
  rw [syntaxDiagnostic, h]
  simp [Cause.unexpected, hw]

end Script

namespace Session

namespace Reached

variable {name source : String} {s : Session}

/-- **A fault names a word of the script that is no comment, or the end.** -/
theorem found (h : s.Reached (Script.scan name source).words) {f : SyntaxFault}
    (hf : f ∈ s.faults) : f.found = none ∨
      ∃ w ∈ (Script.scan name source).words, w.isComment = false ∧ f.found = some w := by
  refine (h.trail.found hf).imp_right fun ⟨p, hp, hfound⟩ => ?_
  obtain ⟨hword, hcomment⟩ := mem_visible_iff.mp hp
  exact ⟨p.word, List.mem_of_getElem? hword, hcomment, hfound⟩

theorem faultStart_mem_stops (h : s.Reached (Script.scan name source).words) {f : SyntaxFault}
    (hf : f ∈ s.faults) : (Script.scan name source).faultStart f.found ∈ Script.stops source := by
  rcases h.found hf with hend | ⟨w, hw, -, hfound⟩
  · rw [hend]
    exact Script.size_mem_stops name source
  · rw [hfound]
    exact (Script.start_mem_stops hw).1

/-- **The faults of a session are placed in order.** -/
theorem pairwise_faultStart (h : s.Reached (Script.scan name source).words) :
    s.faults.Pairwise fun f g => (Script.scan name source).faultStart f.found ≤
      (Script.scan name source).faultStart g.found := by
  have hsorted : (Placed.visible (Script.scan name source).words).Pairwise
      fun p q => p.word.span.start ≤ q.word.span.start := by
    have hwords := (Script.pairwise_start name source).filter (!·.isComment)
    rw [filter_eq_map_visible, List.pairwise_map] at hwords
    exact hwords.imp Nat.le_of_lt
  refine (h.trail.pairwise_found hsorted fun p hp => ?_).1
  exact (Script.start_mem_stops (List.mem_of_getElem? (mem_visible_iff.mp hp).1)).2.le

/-- **A session on its trail is sound.** -/
theorem sound (h : s.Reached (Script.scan name source).words) :
    s.Sound (Script.scan name source) := by
  have hmono := Script.strictMonoOn_place name source
  constructor
  case offset_le => exact h.offset_le
  case not_comment =>
    intro w hw
    rw [Script.word?_eq, h.getElem?_offset] at hw
    exact h.current?_ne_comment hw
  case about =>
    intro d hd
    obtain ⟨f, hf, rfl⟩ := List.mem_map.mp hd
    refine ⟨f.expected.text, ?_⟩
    rcases h.found hf with hend | ⟨w, hw, hcomment, hfound⟩
    · exact .inr (Script.syntaxDiagnostic_of_none _ hend)
    · exact .inl ⟨w, hw, hcomment,
        Script.syntaxDiagnostic_of_some _ hfound (Script.isEof_eq_false hw)⟩
  case end_iff =>
    intro d hd
    obtain ⟨f, hf, rfl⟩ := List.mem_map.mp hd
    rcases h.found hf with hend | ⟨w, hw, -, hfound⟩
    · rw [Script.syntaxDiagnostic_of_none _ hend]
      exact iff_of_true ⟨_, rfl⟩ rfl
    · rw [Script.syntaxDiagnostic_of_some _ hfound (Script.isEof_eq_false hw)]
      have hstart := Script.start_mem_stops hw
      have hlt := hmono hstart.1 (Script.size_mem_stops name source) hstart.2
      refine iff_of_false (fun ⟨_, hcause⟩ => by cases hcause) fun heq => ?_
      exact hlt.ne (congrArg Position.place heq)
  case sorted =>
    refine List.pairwise_map.mpr (h.pairwise_faultStart.imp_of_mem fun hf hg hle => ?_)
    exact hmono.monotoneOn (h.faultStart_mem_stops hf) (h.faultStart_mem_stops hg) hle

end Reached

/-- **Operations keep a session sound, in any number and order**, and each of them moves it forward
only and keeps the diagnostics it had. -/
theorem sound_after (name source : String) (ops : List Operation) :
    let script := Script.scan name source
    let s := (ofWords script.words).after ops
    s.Sound script ∧ ∀ op : Operation, s.offset ≤ (op.perform s).offset ∧
      s.diagnostics script <+: (op.perform s).diagnostics script := by
  intro script s
  have hreached : s.Reached script.words := (Reached.ofWords script.words).after ops
  refine ⟨hreached.sound, fun op => ?_⟩
  obtain ⟨faults, rest, htrail, hperform⟩ := op.exists_trail s
  rw [hperform]
  refine ⟨hreached.offset_le_of_trail htrail, ?_⟩
  rw [diagnostics, diagnostics, List.map_append]
  exact List.prefix_append _ _

end Session

end SqlScript
