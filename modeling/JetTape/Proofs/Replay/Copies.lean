import JetTape.Proofs.Recurrence.Lanewise
import JetTape.Proofs.Replay.Brackets

/-!
Replays of copied directions. Each direction of one arena is a copy, up to the order of the sweep,
of a direction of another. What the program does is told along each direction by that direction, so
where the replay over the originals comes through, that over the copies does and leaves copies, and
an operator that refuses an original refuses the copy. Nothing is asked of the operands and rows
that the instructions name.
-/
namespace JetTape

open Arena (Fits Lanewise Read SameShape)
open Call (Frame Stage)

/-- A choice of directions: on `rows` rows and up to `order`, direction `l` of arenas with layout
`copy` is a copy of direction `source l` of arenas with layout `original`. -/
structure Copying where
  rows : Nat
  order : Nat
  original : Layout
  copy : Layout
  source : Nat → Nat
  source_inside : ∀ l < copy.directions, source l < original.directions

namespace Copying

def directions (C : Copying) : Nat := C.original.directions

def copies (C : Copying) : Nat := C.copy.directions

theorem source_lt (C : Copying) (l : Nat) (h : l < C.copies) : C.source l < C.directions :=
  C.source_inside l h

variable {F : Type} [Scalar F] {α β : Type}

/-- The directions of `a'` are copies of directions of `a`. -/
structure Arenas (C : Copying) (a a' : Arena F) : Prop where
  fits : a.Fits C.rows C.order
  copy_fits : a'.Fits C.rows C.order
  layout : a.layout = C.original
  copy_layout : a'.layout = C.copy
  jets : ∀ l < C.copies, (a'.jet l).EqUpTo C.order (a.jet (C.source l))

/-- The first `n` staged series are copied. -/
def Stages (C : Copying) (n : Nat) (s s' : Stage F) : Prop :=
  ∀ j < n, ∀ k ≤ C.order, ∀ l < C.copies, s'.all.peek j k l = s.all.peek j k (C.source l)

/-- Frames that have gathered copies. -/
structure Frames (C : Copying) (f f' : Frame F) : Prop where
  staged : f.Staged C.order C.directions
  copy_staged : f'.Staged C.order C.copies
  header : f'.header = f.header
  seenArgs : f'.seenArgs = f.seenArgs
  seenResults : f'.seenResults = f.seenResults
  targets : f'.targets = f.targets
  args : C.Stages f.argCount f.args f'.args
  results : C.Stages f.resultCount f.results f'.results

structure Cores (C : Copying) (c c' : Core F) : Prop where
  arenas : C.Arenas c.arena c'.arena
  frames : Option.Rel C.Frames c.frame c'.frame

open Replay (Leads leads_pure leads_throw leads_ok leads_fault leads_require leads_read_error
  leads_update leads_report)

/-- From core `c'`, `m'` does to the copies what `m` does to the originals from `c`: where `m` comes
through, so does `m'`, and it leaves copies; where an operator refuses an original, it refuses its
only copy. Nothing is said where `m` faults. -/
def CopiedAt (C : Copying) (c c' : Core F) (m m' : Replay F α) : Prop :=
  (∃ x d d', Leads m c (.ok x) d ∧ Leads m' c' (.ok x) d' ∧ C.Cores d d') ∨
  (∃ f d, Leads m c (.error (.fault f)) d) ∨
  ∃ name k l d, Leads m c (.error (.refused name k l)) d ∧ l < C.directions ∧
    (C.copies = 1 → C.source 0 = l → ∃ d', Leads m' c' (.error (.refused name k 0)) d')

def Copied (C : Copying) (m m' : Replay F α) : Prop :=
  ∀ c c' : Core F, C.Cores c c' → C.CopiedAt c c' m m'

variable {C : Copying} {a a' : Arena F}

theorem Arenas.directions (h : C.Arenas a a') : a.layout.directions = C.directions :=
  congrArg Layout.directions h.layout

theorem Arenas.copies (h : C.Arenas a a') : a'.layout.directions = C.copies :=
  congrArg Layout.directions h.copy_layout

/-- Where the update `m` succeeds on the originals, `m'` does on the copies, and they leave
copies. -/
def Follows (C : Copying) (m m' : Arena.Update F Unit) : Prop :=
  ∀ a a' : Arena F, C.Arenas a a' →
    (∃ b b', m a = .ok () b ∧ m' a' = .ok () b' ∧ C.Arenas b b') ∨ ∃ f b, m a = .error f b

section Follows

theorem follows_pure : C.Follows (pure () : Arena.Update F Unit) (pure ()) :=
  fun a a' h => Or.inl ⟨a, a', rfl, rfl, h⟩

theorem Follows.bind {m m' k k' : Arena.Update F Unit} (hm : C.Follows m m')
    (hk : C.Follows k k') : C.Follows (m >>= fun _ => k) (m' >>= fun _ => k') := by
  intro a a' h
  rcases hm a a' h with ⟨b, b', hb, hb', hab⟩ | ⟨f, b, hb⟩
  · rw [Arena.bind_of_eq hb, Arena.bind_of_eq hb']
    exact hk b b' hab
  · exact Or.inr ⟨f, b, Arena.bind_of_error hb⟩

/-- A lanewise update follows itself. -/
theorem follows_of_lanewise {m : Arena.Update F Unit} (hm : Lanewise C.rows C.order m) :
    C.Follows m m := by
  intro a a' h
  obtain ⟨g, hg, hdoes⟩ := hm
  rcases hdoes a h.fits with ⟨b, hb, hab, hjets⟩ | ⟨hfault, -⟩
  · have hlike (l : Nat) (hl : l < C.copies) :
        Option.Rel (Jet.EqUpTo C.order) (g (a'.jet l)) (some (b.jet (C.source l))) := by
      rw [← hjets _ (by rw [h.directions]; exact C.source_lt l hl)]
      exact hg _ _ (h.jets l hl)
    rcases hdoes a' h.copy_fits with ⟨b', hb', hab', hjets'⟩ | ⟨-, l, hl, hnone⟩
    · refine Or.inl ⟨b, b', hb, hb', hab.fits h.fits, hab'.fits h.copy_fits, ?_, ?_, ?_⟩
      · rw [hab.layout, h.layout]
      · rw [hab'.layout, h.copy_layout]
      · intro l hl
        have hrel := hlike l hl
        rw [hjets' l (by rw [h.copies]; exact hl)] at hrel
        cases hrel with
        | some hrel => exact hrel
    · have hrel := hlike l (by rwa [← h.copies])
      rw [hnone] at hrel
      cases hrel
  · exact Or.inr hfault

omit [Scalar F] in
/-- A row outside the arena cannot be given values. -/
theorem assign_outside {v : Nat} {value : Nat → Read F F} (ha : a.Fits C.rows C.order)
    (hv : ¬ v < C.rows) : ∃ f b, Arena.assign v C.order value a = .error f b := by
  unfold Arena.assign Arena.eachDirection
  rw [Arena.read_bind_of_eq (x := a.layout.directions) rfl]
  obtain ⟨c, hc⟩ := Nat.exists_eq_succ_of_ne_zero (Nat.ne_of_gt ha.directed)
  rw [hc, Loop.each]
  cases hx : value 0 a with
  | error f => exact ⟨f, a, Arena.bind_of_error (Arena.read_bind_of_error hx)⟩
  | ok x =>
    obtain ⟨f, b, hset⟩ := (ha.toShaped.accessible.set_fault_iff v C.order 0 x).mpr fun h => hv h.1
    refine ⟨f, b, Arena.bind_of_error ?_⟩
    rw [Arena.read_bind_of_eq hx, hset]

/-- Copies are given the values of their originals. -/
theorem follows_assign (v : Nat) {x x' : Nat → F} (hx : ∀ l < C.copies, x' l = x (C.source l)) :
    C.Follows (Arena.assign v C.order fun l => return x l)
      (Arena.assign v C.order fun l => return x' l) := by
  intro a a' h
  by_cases hv : v < C.rows
  · obtain ⟨b, hb, hab, hjets⟩ := Arena.along_assign (g := fun l _ => x l) hv
      (fun _ _ _ _ => rfl) a h.fits
    obtain ⟨b', hb', hab', hjets'⟩ := Arena.along_assign (g := fun l _ => x' l) hv
      (fun _ _ _ _ => rfl) a' h.copy_fits
    refine Or.inl ⟨b, b', hb, hb', hab.fits h.fits, hab'.fits h.copy_fits, ?_, ?_, ?_⟩
    · rw [hab.layout, h.layout]
    · rw [hab'.layout, h.copy_layout]
    · intro l hl
      rw [hjets' l (by rwa [h.copies]), hjets _ (by rw [h.directions]; exact C.source_lt l hl)]
      dsimp only
      rw [hx l hl]
      exact (h.jets l hl).set _
  · exact Or.inr (assign_outside h.fits hv)

/-- Answers to copies go to the rows that those to their originals go to. -/
theorem follows_scatter {results results' : Arena F} {targets : List Nat}
    (hpeek : ∀ i < targets.length, ∀ l < C.copies,
      results'.peek i C.order l = results.peek i C.order (C.source l)) :
    C.Follows (Replay.scatter C.order results targets)
      (Replay.scatter C.order results' targets) := by
  have hlist (rest : List (Nat × Nat)) (hrest : ∀ w ∈ rest, w.2 < targets.length) :
      C.Follows
        (rest.forM fun w => if 0 < w.1 then
          Arena.assign w.1 C.order fun l => return results.peek w.2 C.order l else pure ())
        (rest.forM fun w => if 0 < w.1 then
          Arena.assign w.1 C.order fun l => return results'.peek w.2 C.order l else pure ()) := by
    induction rest with
    | nil => exact follows_pure
    | cons w rest ih =>
      refine Follows.bind ?_ (ih fun w hw => hrest w (List.mem_cons_of_mem _ hw))
      dsimp only
      split
      · exact follows_assign w.1 (hpeek w.2 (hrest w List.mem_cons_self))
      · exact follows_pure
  exact hlist targets.zipIdx fun w hw => by simpa using (List.mem_zipIdx' hw).1

end Follows

theorem copied_pure (x : α) : C.Copied (pure x : Replay F α) (pure x) :=
  fun c c' h => Or.inl ⟨x, c, c', leads_pure x, leads_pure x, h⟩

theorem copied_throw (f : Fault) (m : Replay F α) : C.Copied (throw (.fault f)) m :=
  fun c _ _ => Or.inr (Or.inl ⟨f, c, leads_throw _⟩)

theorem Copied.bind {m m' : Replay F α} {k k' : α → Replay F β} (hm : C.Copied m m')
    (hk : ∀ x, C.Copied (k x) (k' x)) : C.Copied (m >>= k) (m' >>= k') := by
  intro c c' h
  rcases hm c c' h with ⟨x, d, d', hd, hd', hcores⟩ | ⟨f, d, hd⟩ | ⟨name, k, l, d, hd, hl, hcopy⟩
  · rcases hk x d d' hcores with
      ⟨y, e, e', he, he', hcores'⟩ | ⟨f, e, he⟩ | ⟨name, k, l, e, he, hl, hcopy⟩
    · exact Or.inl ⟨y, e, e', hd.bind he, hd'.bind he', hcores'⟩
    · exact Or.inr (Or.inl ⟨f, e, hd.bind he⟩)
    · refine Or.inr (Or.inr ⟨name, k, l, e, hd.bind he, hl, fun hone hsource => ?_⟩)
      obtain ⟨e', he'⟩ := hcopy hone hsource
      exact ⟨e', hd'.bind he'⟩
  · exact Or.inr (Or.inl ⟨f, d, hd.bind_error⟩)
  · refine Or.inr (Or.inr ⟨name, k, l, d, hd.bind_error, hl, fun hone hsource => ?_⟩)
    obtain ⟨d', hd'⟩ := hcopy hone hsource
    exact ⟨d', hd'.bind_error⟩

/-- A value that comes out for the originals must come out for the copies. -/
theorem Copied.ok_bind {m m' : Except Fault α} {k k' : α → Replay F β}
    (hm : ∀ x, m = .ok x → m' = .ok x) (hk : ∀ x, m = .ok x → C.Copied (k x) (k' x)) :
    C.Copied (liftM m >>= k) (liftM m' >>= k') := by
  intro c c' h
  cases hx : m with
  | error f => exact Or.inr (Or.inl ⟨f, c, (leads_fault rfl).bind_error⟩)
  | ok x =>
    rw [hm x hx]
    exact hk x hx c c' h

theorem CopiedAt.imp {c c' : Core F} {m m' k k' : Replay F α} (h : C.CopiedAt c c' k k')
    (hm : ∀ {out d}, Leads k c out d → Leads m c out d)
    (hm' : ∀ {out d}, Leads k' c' out d → Leads m' c' out d) : C.CopiedAt c c' m m' := by
  rcases h with ⟨x, d, d', hd, hd', h⟩ | ⟨f, d, hd⟩ | ⟨name, k, l, d, hd, hl, hcopy⟩
  · exact Or.inl ⟨x, d, d', hm hd, hm' hd', h⟩
  · exact Or.inr (Or.inl ⟨f, d, hm hd⟩)
  · refine Or.inr (Or.inr ⟨name, k, l, d, hm hd, hl, fun hone hsource => ?_⟩)
    obtain ⟨d', hd'⟩ := hcopy hone hsource
    exact ⟨d', hm' hd'⟩

theorem Copied.of_ok {x y : α} {k k' : α → Replay F β} (hk : C.Copied (k x) (k' y)) :
    C.Copied (liftM (Except.ok x : Except Fault α) >>= k)
      (liftM (Except.ok y : Except Fault α) >>= k') :=
  fun c c' h => (hk c c' h).imp (fun h => (leads_ok rfl).bind h) fun h => (leads_ok rfl).bind h

theorem copied_setFrame : C.Copied (Replay.setFrame (F := F) none) (Replay.setFrame none) :=
  fun c c' h => Or.inl ⟨(), ⟨c.arena, none, c.requests⟩, ⟨c'.arena, none, c'.requests⟩,
    Replay.leads_setFrame, Replay.leads_setFrame, h.arenas, .none⟩

/-- What leaves the core as it is leaves copies. -/
theorem copied_of_still {m m' : Replay F Unit} (hm : ∀ c c' : Core F, C.Cores c c' →
    Leads m c (.ok ()) c ∧ Leads m' c' (.ok ()) c') : C.Copied m m' :=
  fun c c' h => Or.inl ⟨(), c, c', (hm c c' h).1, (hm c c' h).2, h⟩

theorem copied_update {m m' : Arena.Update F Unit} (hm : C.Follows m m') :
    C.Copied (liftM m : Replay F Unit) (liftM m') := by
  rintro ⟨a, fr, rs⟩ ⟨a', fr', rs'⟩ h
  rcases hm a a' h.arenas with ⟨b, b', hb, hb', hab⟩ | ⟨f, b, hb⟩
  · refine Or.inl ⟨(), ⟨b, fr, rs⟩, ⟨b', fr', rs'⟩, leads_update hb, leads_update hb', ?_⟩
    exact ⟨hab, h.frames⟩
  · exact Or.inr (Or.inl ⟨f, ⟨b, fr, rs⟩, Replay.leads_update_error hb⟩)

section Gathering

variable {value : Nat → Nat → Read F F} {n j : Nat} {s s' : Stage F}

/-- The series that `value` reads along a direction is that of the jet. -/
def Serial (C : Copying) (value : Nat → Nat → Read F F) : Prop :=
  ∃ g : Jet F → Nat → F, (∀ k j j', (∀ v, j v k = j' v k) → g j k = g j' k) ∧
    ∀ a : Arena F, a.Fits C.rows C.order → ∀ k ≤ C.order, ∀ l < a.layout.directions,
      value k l a = .ok (g (a.jet l) k)

/-- The series can be staged, or its first coefficient cannot be read. -/
def Stageable (C : Copying) (value : Nat → Nat → Read F F) : Prop :=
  C.Serial value ∨ ∀ a : Arena F, a.Fits C.rows C.order → ∃ f, value 0 0 a = .error f

theorem stageable_constantSeries (x : F) : C.Stageable (Replay.constantSeries x) :=
  Or.inl ⟨fun _ k => if k = 0 then x else 0, fun _ _ _ _ => rfl, fun _ _ _ _ _ _ => rfl⟩

theorem stageable_coeff (v : Nat) : C.Stageable (Arena.coeff v : Nat → Nat → Read F F) := by
  by_cases hv : v < C.rows
  · exact Or.inl ⟨fun j k => j v k, fun k _ _ h => h v,
      fun a ha k hk l hl => ha.get_eq hv hk hl⟩
  · exact Or.inr fun a ha =>
      (ha.toShaped.accessible.get_fault_iff v 0 0).mpr fun h => hv h.1

omit [Scalar F] in
/-- The first place of a series is read first. -/
theorem put_of_error {f : Fault} (h : value 0 0 a = .error f) : s.put j value a = .error f := by
  have hfirst (step : Arena F → Nat × Nat → Read F (Arena F)) (b : Arena F) (ps : List (Nat × Nat))
      (hstep : step b (0, 0) a = .error f) : ((0, 0) :: ps).foldlM step b a = .error f := by
    rw [List.foldlM_cons]
    show Except.bind _ _ = _
    rw [hstep]
    rfl
  unfold Stage.put
  show Except.bind _ _ = _
  rw [Stage.places, hfirst]
  · rfl
  · show Except.bind _ _ = _
    rw [h]
    rfl

/-- Originals and copies of a series are staged alike. -/
theorem Serial.put (hvalue : C.Serial value) (ha : C.Arenas a a')
    (hs : s.Sized n C.order C.directions) (hs' : s'.Sized n C.order C.copies)
    (hstages : C.Stages n s s') (hj : j < n) :
    ∃ s₁ s₁', s.put j value a = .ok s₁ ∧ s'.put j value a' = .ok s₁' ∧ C.Stages n s₁ s₁' := by
  obtain ⟨g, hlooks, hread⟩ := hvalue
  have hput : s.put j value a = .ok (s.fill j fun k l => g (a.jet l) k) := by
    refine hs.put_eq_fill (by rw [← ha.directions]; exact ha.fits.directed) fun k hk l hl => ?_
    exact hread a ha.fits k hk l (by rwa [ha.directions])
  have hput' : s'.put j value a' = .ok (s'.fill j fun k l => g (a'.jet l) k) := by
    refine hs'.put_eq_fill (by rw [← ha.copies]; exact ha.copy_fits.directed) fun k hk l hl => ?_
    exact hread a' ha.copy_fits k hk l (by rwa [ha.copies])
  refine ⟨_, _, hput, hput', ?_⟩
  intro i hi k hk l hl
  have hshared (l : Nat) (hl : l < C.directions) : g (a.jet l) 0 = g (a.jet 0) 0 :=
    hlooks 0 _ _ (Arena.jet_zero (by rwa [ha.directions]) ha.fits.directed)
  have hshared' (l : Nat) (hl : l < C.copies) : g (a'.jet l) 0 = g (a'.jet 0) 0 :=
    hlooks 0 _ _ (Arena.jet_zero (by rwa [ha.copies]) ha.copy_fits.directed)
  rw [Stage.peek_fill hs' hj hshared' hk hl,
    Stage.peek_fill hs hj hshared hk (C.source_lt l hl), hstages i hi k hk l hl,
    hlooks k _ _ fun v => ha.jets l hl v k hk]

end Gathering

section Frames

variable {f f' : Frame F} {value : Nat → Nat → Read F F} {options options' : Options}
variable {site : CallSite F}

theorem Frames.argCount (h : C.Frames f f') : f'.argCount = f.argCount :=
  congrArg (fun header => header.2.1) h.header

theorem Frames.resultCount (h : C.Frames f f') : f'.resultCount = f.resultCount :=
  congrArg (fun header => header.2.2) h.header

theorem Frames.phase (h : C.Frames f f') : f'.phase = f.phase := by
  unfold Frame.phase
  rw [h.argCount, h.resultCount, h.seenArgs, h.seenResults]

theorem frames_opened (site : CallSite F) :
    C.Frames (.opened site C.order C.directions) (.opened site C.order C.copies) where
  staged := Call.Frame.staged_opened _ _ _
  copy_staged := Call.Frame.staged_opened _ _ _
  header := rfl
  seenArgs := rfl
  seenResults := rfl
  targets := rfl
  args := fun _ _ _ _ _ _ => by simp [Frame.opened]
  results := fun _ _ _ _ _ _ => by simp [Frame.opened]

/-- Copies make the requests of their originals. -/
theorem Frames.requestAlong_eq (h : C.Frames f f') {l : Nat} (hl : l < C.copies) :
    f'.requestAlong C.order l = f.requestAlong C.order (C.source l) := by
  have hargs' := h.copy_staged.args
  have hresults' := h.copy_staged.results
  rw [h.argCount] at hargs'
  rw [h.resultCount] at hresults'
  exact Frame.requestAlong_congr (congrArg Prod.fst h.header) h.argCount rfl h.resultCount rfl
    hargs' h.staged.args hresults' h.staged.results (fun j hj k hk => h.args j hj k hk l hl)
    fun i hi k hk => h.results i hi k (Nat.le_of_lt hk) l hl

/-- Copies of an argument join the open block. -/
theorem Frames.putArg (h : C.Frames f f') (ha : C.Arenas a a') (hvalue : C.Stageable value)
    (hphase : f.phase = .args) :
    (∃ f₁ f₁', f.putArg value a = .ok f₁ ∧ f'.putArg value a' = .ok f₁' ∧ C.Frames f₁ f₁') ∨
      ∃ fault, f.putArg value a = .error fault := by
  have hseen := h.staged.seen
  rw [hphase] at hseen
  rcases hvalue with hserial | hfault
  · have hsized' := h.copy_staged.args
    rw [h.argCount] at hsized'
    obtain ⟨s, s', hput, hput', hstages⟩ :=
      hserial.put ha h.staged.args hsized' h.args hseen.1
    have hput₁ : f.putArg value a = .ok { f with args := s, seenArgs := f.seenArgs + 1 } := by
      unfold Frame.putArg
      rw [Arena.read_of_eq hput]
      rfl
    have hput₁' : f'.putArg value a' = .ok { f' with args := s', seenArgs := f'.seenArgs + 1 } := by
      rw [← h.seenArgs] at hput'
      unfold Frame.putArg
      rw [Arena.read_of_eq hput']
      rfl
    refine Or.inl ⟨_, _, hput₁, hput₁', ?_⟩
    exact {
      staged := (h.staged.putArg hphase hput₁).1
      copy_staged := (h.copy_staged.putArg (h.phase.trans hphase) hput₁').1
      header := h.header
      seenArgs := congrArg (· + 1) h.seenArgs
      seenResults := h.seenResults
      targets := h.targets
      args := hstages
      results := h.results }
  · obtain ⟨fault, hf⟩ := hfault a ha.fits
    refine Or.inr ⟨fault, ?_⟩
    unfold Frame.putArg
    show Except.bind _ _ = _
    rw [put_of_error hf]
    rfl

omit [Scalar F] in
/-- Where no argument can join, the replay faults. -/
theorem leads_takeArg_fault {fr : Option (Frame F)} {rs : Array (Request F)}
    (h : ∀ f, fr = some f → f.phase = .args → ∃ fault, f.putArg value a = .error fault) :
    ∃ fault, Leads (Replay.takeArg value) ⟨a, fr, rs⟩ (.error (.fault fault)) ⟨a, fr, rs⟩ := by
  cases fr with
  | none =>
    refine ⟨.argOutside .start, Leads.get fun s hs => ?_⟩
    rw [show s.frame = none from congrArg Core.frame hs]
    exact leads_throw _
  | some f =>
    by_cases hphase : f.phase = .args
    · obtain ⟨fault, hput⟩ := h f rfl hphase
      refine ⟨fault, Leads.get fun s hs => ?_⟩
      rw [show s.frame = some f from congrArg Core.frame hs]
      exact (leads_require hphase).bind (leads_read_error hput).bind_error
    · refine ⟨.argOutside f.phase, Leads.get fun s hs => ?_⟩
      rw [show s.frame = some f from congrArg Core.frame hs]
      exact (leads_fault (if_neg hphase)).bind_error

theorem copied_takeArg (hvalue : C.Stageable value) :
    C.Copied (Replay.takeArg value) (Replay.takeArg value) := by
  rintro ⟨a, fr, rs⟩ ⟨a', fr', rs'⟩ ⟨ha, hframes⟩
  by_cases hfault : ∀ f, fr = some f → f.phase = .args → ∃ fault, f.putArg value a = .error fault
  · obtain ⟨fault, h⟩ := leads_takeArg_fault hfault
    exact Or.inr (Or.inl ⟨fault, _, h⟩)
  · push Not at hfault
    obtain ⟨f, rfl, hphase, hput⟩ := hfault
    cases hframes with
    | some h =>
      rcases h.putArg ha hvalue hphase with ⟨f₁, f₁', hput, hput', h₁⟩ | ⟨fault, hput'⟩
      · exact Or.inl ⟨(), ⟨a, some f₁, rs⟩, ⟨a', some _, rs'⟩, Replay.leads_takeArg rs hphase hput,
          Replay.leads_takeArg rs' (h.phase.trans hphase) hput', ha, .some h₁⟩
      · exact absurd hput' (hput fault)

/-- Copies of a result join the open block. -/
theorem Frames.putResult (h : C.Frames f f') (ha : C.Arenas a a') (hvalue : C.Stageable value)
    (hphase : f.phase = .results) (row : Nat) :
    (∃ f₁ f₁', f.putResult row value a = .ok f₁ ∧ f'.putResult row value a' = .ok f₁' ∧
      C.Frames f₁ f₁') ∨ ∃ fault, f.putResult row value a = .error fault := by
  have hseen := h.staged.seen
  rw [hphase] at hseen
  rcases hvalue with hserial | hfault
  · have hsized' := h.copy_staged.results
    rw [h.resultCount] at hsized'
    obtain ⟨s, s', hput, hput', hstages⟩ :=
      hserial.put ha h.staged.results hsized' h.results hseen.2
    rw [← h.seenResults] at hput'
    have hput₁ : f.putResult row value a = .ok { f with
        results := s, targets := f.targets.setIfInBounds f.seenResults row,
        seenResults := f.seenResults + 1 } := by
      unfold Frame.putResult
      rw [Arena.read_of_eq hput]
      rfl
    have hput₁' : f'.putResult row value a' = .ok { f' with
        results := s', targets := f'.targets.setIfInBounds f'.seenResults row,
        seenResults := f'.seenResults + 1 } := by
      unfold Frame.putResult
      rw [Arena.read_of_eq hput']
      rfl
    refine Or.inl ⟨_, _, hput₁, hput₁', ?_⟩
    exact {
      staged := (h.staged.putResult hphase hput₁).1
      copy_staged := (h.copy_staged.putResult (h.phase.trans hphase) hput₁').1
      header := h.header
      seenArgs := h.seenArgs
      seenResults := congrArg (· + 1) h.seenResults
      targets := by rw [h.targets, h.seenResults]
      args := h.args
      results := hstages }
  · obtain ⟨fault, hf⟩ := hfault a ha.fits
    refine Or.inr ⟨fault, ?_⟩
    unfold Frame.putResult
    show Except.bind _ _ = _
    rw [put_of_error hf]
    rfl

omit [Scalar F] in
/-- Where no result can join, the replay faults. -/
theorem leads_takeResult_fault {row : Nat} {fr : Option (Frame F)} {rs : Array (Request F)}
    (h : ∀ f, fr = some f → f.phase = .results →
      ∃ fault, f.putResult row value a = .error fault) :
    ∃ fault, Leads (Replay.takeResult row value) ⟨a, fr, rs⟩ (.error (.fault fault))
      ⟨a, fr, rs⟩ := by
  cases fr with
  | none =>
    refine ⟨.resultOutside .start, Leads.get fun s hs => ?_⟩
    rw [show s.frame = none from congrArg Core.frame hs]
    exact leads_throw _
  | some f =>
    by_cases hphase : f.phase = .results
    · obtain ⟨fault, hput⟩ := h f rfl hphase
      refine ⟨fault, Leads.get fun s hs => ?_⟩
      rw [show s.frame = some f from congrArg Core.frame hs]
      exact (leads_require hphase).bind (leads_read_error hput).bind_error
    · refine ⟨.resultOutside f.phase, Leads.get fun s hs => ?_⟩
      rw [show s.frame = some f from congrArg Core.frame hs]
      exact (leads_fault (if_neg hphase)).bind_error

theorem copied_takeResult (row : Nat) (hvalue : C.Stageable value) :
    C.Copied (Replay.takeResult row value) (Replay.takeResult row value) := by
  rintro ⟨a, fr, rs⟩ ⟨a', fr', rs'⟩ ⟨ha, hframes⟩
  by_cases hfault : ∀ f, fr = some f → f.phase = .results →
      ∃ fault, f.putResult row value a = .error fault
  · obtain ⟨fault, h⟩ := leads_takeResult_fault hfault
    exact Or.inr (Or.inl ⟨fault, _, h⟩)
  · push Not at hfault
    obtain ⟨f, rfl, hphase, hput⟩ := hfault
    cases hframes with
    | some h =>
      rcases h.putResult ha hvalue hphase row with ⟨f₁, f₁', hput, hput', h₁⟩ | ⟨fault, hput'⟩
      · exact Or.inl ⟨(), ⟨a, some f₁, rs⟩, ⟨a', some _, rs'⟩,
          Replay.leads_takeResult rs hphase hput,
          Replay.leads_takeResult rs' (h.phase.trans hphase) hput', ha, .some h₁⟩
      · exact absurd hput' (hput fault)

end Frames

section Markers

variable {f f' : Frame F} {site : CallSite F} {options options' : Options}
variable {fr fr' : Option (Frame F)} {rs rs' : Array (Request F)}

/-- Asks originals and copies. Where all originals are answered, the copies are too, and the answers
are copies. Where an original is refused, its only copy is refused. -/
theorem leads_asks_copies (operator : Operator F) (options options' : Options)
    (fr fr' : Option (Frame F)) (rs rs' : Array (Request F)) (ha : C.Arenas a a')
    (h : C.Frames f f') : (∃ f₁ f₁' d d', Leads (Loop.fold a.layout.directions 0
          (Replay.ask options operator C.order) f) ⟨a, fr, rs⟩ (.ok f₁) ⟨a, fr, d⟩ ∧
        Leads (Loop.fold a'.layout.directions 0 (Replay.ask options' operator C.order) f')
          ⟨a', fr', rs'⟩ (.ok f₁') ⟨a', fr', d'⟩ ∧
        f₁.targets = f.targets ∧ f₁'.targets = f.targets ∧
        ∀ i < f.resultCount, ∀ l < C.copies,
          f₁'.results.all.peek i C.order l = f₁.results.all.peek i C.order (C.source l)) ∨
    ∃ halt l d, Leads (Loop.fold a.layout.directions 0 (Replay.ask options operator C.order) f)
        ⟨a, fr, rs⟩ (.error (Halt.stop C.order l halt)) d ∧ l < C.directions ∧
      (C.copies = 1 → C.source 0 = l → ∃ d', Leads
        (Loop.fold a'.layout.directions 0 (Replay.ask options' operator C.order) f')
        ⟨a', fr', rs'⟩ (.error (Halt.stop C.order 0 halt)) d') := by
  rw [ha.directions, ha.copies]
  have hargs := h.staged.args
  have hresults := h.staged.results
  have hargs' := h.copy_staged.args
  have hresults' := h.copy_staged.results
  have horiginals := Replay.leads_asks operator options a fr rs hargs hresults ha.fits.order_pos
    (Nat.le_of_eq (Nat.zero_add _)) (Frame.asked_refl hargs hresults)
  have hcopies := Replay.leads_asks operator options' a' fr' rs' hargs' hresults'
    ha.fits.order_pos (Nat.le_of_eq (Nat.zero_add _)) (Frame.asked_refl hargs' hresults')
  rcases horiginals with
    ⟨f₁, hf₁, hanswers, -, hleads⟩ | ⟨l, halt, hl, -, hhalt, hleads⟩
  · rcases hcopies with ⟨f₁', hf₁', hanswers', -, hleads'⟩ | ⟨l, halt, hl, -, hhalt, -⟩
    · refine Or.inl ⟨f₁, f₁', _, _, hleads, hleads', hf₁.targets, hf₁'.targets.trans h.targets, ?_⟩
      intro i hi l hl
      obtain ⟨results, hanswer, hpeek⟩ := hanswers (C.source l) (Nat.zero_le _)
        (by rw [Nat.zero_add]; exact C.source_lt l hl)
      obtain ⟨results', hanswer', hpeek'⟩ := hanswers' l (Nat.zero_le l) (by omega)
      rw [h.requestAlong_eq hl, hanswer] at hanswer'
      cases hanswer'
      rw [hpeek' i (by rwa [h.resultCount]), hpeek i hi]
    · have hsource := C.source_lt (0 + l) (by omega)
      obtain ⟨results, hanswer, -⟩ := hanswers (C.source (0 + l)) (Nat.zero_le _) (by omega)
      rw [h.requestAlong_eq (by omega), hanswer] at hhalt
      cases hhalt
  · rw [Nat.zero_add] at hhalt hleads
    refine Or.inr ⟨halt, l, _, hleads, hl, fun hone hsource => ?_⟩
    have hzero : 0 < C.copies := by omega
    rcases hcopies with ⟨f₁', hf₁', hanswers', -, -⟩ | ⟨l', halt', hl', -, hhalt', hleads'⟩
    · obtain ⟨results', hanswer', -⟩ := hanswers' 0 (Nat.le_refl 0) (by omega)
      rw [h.requestAlong_eq hzero, hsource, hhalt] at hanswer'
      cases hanswer'
    · obtain rfl : l' = 0 := by omega
      rw [h.requestAlong_eq hzero, hsource, hhalt] at hhalt'
      cases hhalt'
      exact ⟨_, hleads'⟩

/-- A block closes alike over originals and copies. -/
theorem copiedAt_close (ha : C.Arenas a a') (h : C.Frames f f') (hphase : f.phase = .finished) :
    C.CopiedAt ⟨a, some f, rs⟩ ⟨a', some f', rs'⟩ (Replay.marker options C.order site)
      (Replay.marker options' C.order site) := by
  cases hclosing : f.checkClosing site with
  | error fault =>
    exact Or.inr (Or.inl ⟨fault, _, Replay.leads_close options rs hphase
      (leads_fault hclosing).bind_error⟩)
  | ok u =>
    have hclosing' : f'.checkClosing site = .ok () := by
      rw [Call.Frame.checkClosing_eq_ok_iff] at hclosing ⊢
      rw [h.header, hclosing]
    have hclose {options : Options} {a : Arena F} {f : Frame F} {rs : Array (Request F)}
        {out : Except Stop Unit} {c : Core F} (hphase : f.phase = .finished)
        (hclosing : f.checkClosing site = .ok ()) (hleads : Leads _ ⟨a, none, rs⟩ out c) :
        Leads (Replay.marker options C.order site) ⟨a, some f, rs⟩ out c :=
      Replay.leads_close options rs hphase
        (Replay.leads_closeCall_of_checked options (some f) rs hclosing hleads)
    rcases leads_asks_copies site.operator options options' none none rs rs' ha h with
      ⟨f₁, f₁', d, d', hasks, hasks', htargets, htargets', hpeek⟩ |
        ⟨halt, l, d, hasks, hl, hcopy⟩
    · have hlength : f.targets.toList.length = f.resultCount := h.staged.targets
      rw [← hlength] at hpeek
      rw [← htargets] at htargets'
      rcases follows_scatter hpeek a a' ha with ⟨b, b', hb, hb', hab⟩ | ⟨fault, b, hb⟩
      · refine Or.inl ⟨(), ⟨b, none, d⟩, ⟨b', none, d'⟩, ?_, ?_, hab, .none⟩
        · refine hclose hphase hclosing (hasks.bind ?_)
          rw [htargets]
          exact leads_update hb
        · refine hclose (h.phase.trans hphase) hclosing' (hasks'.bind ?_)
          rw [htargets', htargets]
          exact leads_update hb'
      · refine Or.inr (Or.inl ⟨fault, ⟨b, none, d⟩, hclose hphase hclosing (hasks.bind ?_)⟩)
        rw [htargets]
        exact Replay.leads_update_error hb
    · cases halt with
      | fault report => exact Or.inr (Or.inl ⟨_, d, hclose hphase hclosing hasks.bind_error⟩)
      | refused name =>
        refine Or.inr (Or.inr ⟨name, _, l, d, hclose hphase hclosing hasks.bind_error, hl, ?_⟩)
        intro hone hsource
        obtain ⟨d', hasks'⟩ := hcopy hone hsource
        exact ⟨d', hclose (h.phase.trans hphase) hclosing' hasks'.bind_error⟩

/-- A marker with room for copies does to copies what it does to originals. -/
theorem copied_marker (hroom : site.Room C.order C.copies) :
    C.Copied (Replay.marker options C.order site) (Replay.marker options' C.order site) := by
  rintro ⟨a, fr, rs⟩ ⟨a', fr', rs'⟩ ⟨ha, hframes⟩
  cases hframes with
  | none =>
    cases hnew : Frame.new site C.order a.layout.directions with
    | error fault => exact Or.inr (Or.inl ⟨fault, _, Replay.leads_open_fault options rs hnew⟩)
    | ok f =>
      have hf := Call.Frame.eq_of_new hnew
      have hnew' : Frame.new site C.order a'.layout.directions =
          .ok (.opened site C.order C.copies) := by
        rw [ha.copies]
        exact hroom.new_eq (ha.copies ▸ ha.copy_fits.directed)
      refine Or.inl ⟨(), _, _, Replay.leads_open options rs hnew,
        Replay.leads_open options' rs' hnew', ha, .some ?_⟩
      rw [hf, ha.directions]
      exact frames_opened site
  | @some f f' h =>
    by_cases hphase : f.phase = .finished
    · exact copiedAt_close ha h hphase
    · refine Or.inr (Or.inl ⟨.markerInside site.operator.name f.phase f.seenArgs f.argCount
        f.seenResults f.resultCount, ⟨a, some f, rs⟩, Leads.get fun s hs => ?_⟩)
      rw [show s.frame = some f from congrArg Core.frame hs]
      cases hf : f.phase with
      | start | args | results =>
        simp only [hf]
        exact leads_throw _
      | finished => exact absurd hf hphase

end Markers

section Replays

variable {P : Program F} {resolved : Array Nat} {mask : Array Bool} {options options' : Options}
variable {i : Nat} {ins : Instr}

/-- There is room for the copies of what the call needs that a marker describes. -/
def RoomAt (C : Copying) (P : Program F) (ins : Instr) : Prop :=
  ins.op = .callMarker → ∀ site, P.callSite ins.args = .ok site → site.Room C.order C.copies

theorem copied_step (hroom : C.RoomAt P ins) :
    C.Copied (Replay.step P C.order resolved options i ins)
      (Replay.step P C.order resolved options' i ins) := by
  by_cases hplain : ins.op.isPlain = true
  · rw [Replay.step_eq_update hplain, Replay.step_eq_update hplain]
    exact copied_update (follows_of_lanewise Recurrence.lanewise_update)
  · obtain ⟨op, args, row⟩ := ins
    cases op with
    | start | independent => exact copied_throw _ _
    | callMarker =>
      exact .ok_bind (fun _ h => h) fun site hsite => copied_marker (hroom rfl site hsite)
    | callArg kind =>
      cases kind with
      | par =>
        refine .ok_bind (fun _ h => h) fun _ _ => .ok_bind (fun _ h => h) fun _ _ => ?_
        exact copied_takeArg (stageable_constantSeries _)
      | var => exact .ok_bind (fun _ h => h) fun v _ => copied_takeArg (stageable_coeff v)
    | callResult kind =>
      cases kind with
      | par =>
        refine .ok_bind (fun _ h => h) fun _ _ => .ok_bind (fun _ h => h) fun _ _ => ?_
        exact copied_takeResult 0 (stageable_constantSeries _)
      | var => exact copied_takeResult row (stageable_coeff row)
    | stop => exact copied_pure ()
    | _ => exact absurd rfl hplain

theorem copied_checkClosed : C.Copied (Replay.checkClosed : Replay F Unit) Replay.checkClosed := by
  rintro ⟨a, fr, rs⟩ ⟨a', fr', rs'⟩ ⟨ha, hframes⟩
  cases hframes with
  | none =>
    have hclosed (a : Arena F) (rs : Array (Request F)) :
        Leads (Replay.checkClosed : Replay F Unit) ⟨a, none, rs⟩ (.ok ()) ⟨a, none, rs⟩ := by
      refine Leads.get fun s hs => ?_
      rw [show s.frame = none from congrArg Core.frame hs]
      exact leads_require rfl
    exact Or.inl ⟨(), _, _, hclosed a rs, hclosed a' rs', ha, .none⟩
  | @some f f' h =>
    refine Or.inr (Or.inl ⟨.callOpenAtStop f.phase, ⟨a, some f, rs⟩, Leads.get fun s hs => ?_⟩)
    rw [show s.frame = some f from congrArg Core.frame hs]
    exact leads_fault (if_neg f.phase_ne_start)

theorem copied_replayFrom (hrows : ∀ i ins, P.instr i = .ok ins → ins.row < C.rows)
    (hroom : ∀ i ins, P.instr i = .ok ins → C.RoomAt P ins) (i : Nat) :
    C.Copied (Replay.replayFrom P C.order mask resolved options i)
      (Replay.replayFrom P C.order mask resolved options' i) := by
  induction hn : mask.size - i using Nat.strongRecOn generalizing i with
  | ind n ih =>
    cases hnext : Cursor.next P mask i with
    | error f =>
      rw [Replay.replayFrom_of_error hnext]
      exact copied_throw f _
    | ok j =>
      rw [Replay.replayFrom_eq hnext, Replay.replayFrom_eq hnext]
      refine Copied.bind (copied_of_still fun c c' _ => ⟨Replay.leads_reportSkipped _ _ _,
        Replay.leads_reportSkipped _ _ _⟩) fun _ => .ok_bind (fun _ h => h) fun ins hins => ?_
      have hle := Cursor.le_of_next hnext
      have hlt := Cursor.lt_size_of_next hnext
      split
      · exact copied_checkClosed
      · refine (copied_step (hroom j ins hins)).bind fun _ => Copied.bind ?_ fun _ => ?_
        · refine copied_of_still fun c c' h => ?_
          have hrow : ins.op.resultCount = 0 ∨ ins.op = .callResult .var ∨ ins.row < C.rows :=
            Or.inr (Or.inr (hrows j ins hins))
          exact ⟨Replay.leads_trace _ _ _ h.arenas.fits hrow,
            Replay.leads_trace _ _ _ h.arenas.copy_fits hrow⟩
        · exact ih _ (by omega) (j + 1) rfl

/-- The sweep of copies comes through its checks where that of the originals does. -/
theorem copied_sweep (hrows : ∀ i ins, P.instr i = .ok ins → ins.row < C.rows)
    (hroom : ∀ i ins, P.instr i = .ok ins → C.RoomAt P ins) {a a' : Arena F} (ha : C.Arenas a a')
    (hshapes : Replay.checkShapes P C.order mask resolved a = .ok () →
      Replay.checkShapes P C.order mask resolved a' = .ok ()) :
    C.CopiedAt ⟨a, none, #[]⟩ ⟨a', none, #[]⟩ (Replay.sweep P C.order mask resolved options)
      (Replay.sweep P C.order mask resolved options') := by
  have hget {options : Options} {a : Arena F} {out : Except Stop Unit} {d : Core F}
      (h : Leads (do
        Replay.checkShapes P C.order mask resolved a
        Replay.checkHead P
        Replay.report options
          (.sweepStarts C.order a.layout.directions P.instrCount P.rowCount)
        let _ ← Arena.ofCells a.layout a.cells
        Replay.setFrame none
        Replay.replayFrom P C.order mask resolved options (← Index.add P.independentCount 1) :
          Replay F Unit) ⟨a, none, #[]⟩ out d) :
      Leads (Replay.sweep P C.order mask resolved options) ⟨a, none, #[]⟩ out d := by
    refine Leads.get fun s hs => ?_
    rw [show s.arena = a from congrArg Core.arena hs]
    exact h
  refine CopiedAt.imp ?_ hget hget
  suffices h : C.Copied _ _ from h _ _ ⟨ha, .none⟩
  refine .ok_bind (fun _ => hshapes) fun _ _ => .ok_bind (fun _ h => h) fun _ _ => ?_
  refine Copied.bind (copied_of_still fun _ _ _ => ⟨leads_report _ _, leads_report _ _⟩) fun _ => ?_
  rw [ha.fits.toShaped.ofCells_eq, ha.copy_fits.toShaped.ofCells_eq]
  refine .of_ok (copied_setFrame.bind fun _ => .ok_bind (fun _ h => h) fun i _ => ?_)
  exact copied_replayFrom hrows hroom i

end Replays

end Copying

end JetTape
