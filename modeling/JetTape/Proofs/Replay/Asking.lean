import JetTape.Proofs.Call.Stage
import JetTape.Proofs.Replay.Lane
import JetTape.Proofs.Replay.Leads

/-!
Asking a complete frame. Answers go into the frame at the order of the call, and no request looks
there, so the frame makes the same requests whatever it has been asked before. The outcome of asking
along all directions is told by the requests of the frame at its beginning.
-/
namespace JetTape

open Call (Frame Stage)

variable {F : Type} [Scalar F] {q r : Nat}

namespace Call

theorem Stage.Sized.cells_turn {s : Stage F} {n : Nat} (h : s.Sized n q r) (c l : Nat) :
    (s.turn n c l).along.cells = ((List.range n).flatMap fun j =>
      (List.range (q + 1)).map fun k => if k < c then s.all.peek j k l else 0).toArray := by
  have hturn : (s.turn n c l).Sized (List.range n).length q r := by
    rw [List.length_range]
    exact h.turn c l
  refine Stage.cells_eq_flatMap hturn (fun _ _ => by simp) fun j hj k hk => ?_
  rw [List.length_range] at hj
  rw [Stage.peek_turn h hj hk]
  simp [List.getElem?_range (show k < q + 1 by omega)]

/-- Stages that agree along two directions lay out the same. -/
theorem Stage.Sized.cells_turn_congr {s s' : Stage F} {n r' c l l' : Nat} (h : s.Sized n q r)
    (h' : s'.Sized n q r')
    (hpeek : ∀ j < n, ∀ k < c, s.all.peek j k l = s'.all.peek j k l') :
    (s.turn n c l).along.cells = (s'.turn n c l').along.cells := by
  rw [h.cells_turn, h'.cells_turn]
  refine congrArg List.toArray (List.flatMap_congr fun j hj => List.map_congr_left fun k _ => ?_)
  split
  · exact hpeek j (List.mem_range.mp hj) k ‹_›
  · rfl

namespace Frame

/-- The request of order `q` that the frame makes along direction `l`. -/
def requestAlong (f : Frame F) (q l : Nat) : Request F := (f.turn q l).request q

/-- The frame `f` is what asking the frame `f₀` along some directions has made of it. -/
structure Asked (q r : Nat) (f₀ f : Frame F) : Prop where
  callId : f.callId = f₀.callId
  argCount : f.argCount = f₀.argCount
  resultCount : f.resultCount = f₀.resultCount
  targets : f.targets = f₀.targets
  args_sized : f.args.Sized f₀.argCount q r
  results_sized : f.results.Sized f₀.resultCount q r
  args : f.args.all = f₀.args.all
  results : ∀ i < f₀.resultCount, ∀ k < q, ∀ l < r,
    f.results.all.peek i k l = f₀.results.all.peek i k l

theorem asked_refl {f : Frame F} (hargs : f.args.Sized f.argCount q r)
    (hresults : f.results.Sized f.resultCount q r) : Asked q r f f :=
  ⟨rfl, rfl, rfl, rfl, hargs, hresults, rfl, fun _ _ _ _ _ _ => rfl⟩

/-- Frames that have staged the same along two directions, but for order `q` of the results, make
the same request along them. -/
theorem requestAlong_congr {f f' : Frame F} {n m r' l l' : Nat} (hid : f.callId = f'.callId)
    (hn : f.argCount = n) (hn' : f'.argCount = n) (hm : f.resultCount = m)
    (hm' : f'.resultCount = m) (hargs : f.args.Sized n q r) (hargs' : f'.args.Sized n q r')
    (hresults : f.results.Sized m q r) (hresults' : f'.results.Sized m q r')
    (harg : ∀ j < n, ∀ k ≤ q, f.args.all.peek j k l = f'.args.all.peek j k l')
    (hresult : ∀ i < m, ∀ k < q, f.results.all.peek i k l = f'.results.all.peek i k l') :
    f.requestAlong q l = f'.requestAlong q l' := by
  subst hn hm
  have hsameArgs : (f.args.turn f.argCount (q + 1) l).along.cells =
      (f'.args.turn f.argCount (q + 1) l').along.cells :=
    hargs.cells_turn_congr hargs' fun j hj k hk => harg j hj k (Nat.le_of_lt_succ hk)
  have hsameResults : (f.results.turn f.resultCount q l).along.cells =
      (f'.results.turn f.resultCount q l').along.cells :=
    hresults.cells_turn_congr hresults' hresult
  simp only [requestAlong, request, turn, hn', hm', hid, hsameArgs, hsameResults]

namespace Asked

variable {f₀ f : Frame F} {l : Nat}

theorem requestAlong_eq (h : Asked q r f₀ f) (hl : l < r) (hargs : f₀.args.Sized f₀.argCount q r)
    (hresults : f₀.results.Sized f₀.resultCount q r) :
    f.requestAlong q l = f₀.requestAlong q l :=
  requestAlong_congr h.callId h.argCount rfl h.resultCount rfl h.args_sized hargs h.results_sized
    hresults (fun _ _ _ _ => by rw [h.args]) fun i hi k hk => h.results i hi k hk l hl

/-- The frame takes over an answer. -/
theorem answer (h : Asked q r f₀ f) (hq : 0 < q) (hl : l < r) {results : Array F}
    (hsize : results.size = (f.requestAlong q l).results.size) :
    let f₁ := (f.turn q l).answer q l results
    Asked q r f₀ f₁ ∧ ∀ i < f₀.resultCount, ∀ d < r, f₁.results.all.peek i q d =
      if d = l then results.getD (i * (q + 1) + q) 0 else f.results.all.peek i q d := by
  intro f₁
  have hargs : (f.turn q l).args.Sized f₀.argCount q r := by
    rw [← h.argCount]
    exact (h.argCount ▸ h.args_sized).turn _ _
  have hturned : (f.turn q l).results.Sized f₀.resultCount q r := by
    rw [← h.resultCount]
    exact (h.resultCount ▸ h.results_sized).turn _ _
  have hresults : f₁.results = (f.turn q l).results.answer f₀.resultCount q l results := by
    rw [← h.resultCount]
    rfl
  have hpeek {i k d : Nat} (hi : i < f₀.resultCount) (hk : k ≤ q) (hd : d < r) :
      f₁.results.all.peek i k d = if k = q ∧ d = l then results.getD (i * (q + 1) + q) 0
        else f.results.all.peek i k d := by
    rw [hresults]
    exact Stage.peek_answer hturned hq hi hk hl hd
  refine ⟨⟨h.callId, h.argCount, h.resultCount, h.targets, hargs, ?_, h.args, ?_⟩, ?_⟩
  · rw [hresults]
    exact hturned.answer l hsize
  · intro i hi k hk d hd
    rw [hpeek hi (Nat.le_of_lt hk) hd, if_neg (by omega), h.results i hi k hk d hd]
  · intro i hi d hd
    rw [hpeek hi (Nat.le_refl q) hd]
    simp only [true_and]

end Asked

end Frame

end Call

namespace Replay

open Call.Frame (Asked)

variable {f₀ f : Frame F} {l : Nat} (operator : Operator F) (options : Options) (a : Arena F)
variable (frame : Option (Frame F)) (requests : Array (Request F))

/-- Asks along one direction. -/
theorem leads_ask (h : Asked q r f₀ f) (hq : 0 < q) (hl : l < r) :
    match operator.answer (f.requestAlong q l) with
    | .ok results => ∃ f₁, Asked q r f₀ f₁ ∧
        (∀ i < f₀.resultCount, ∀ d < r, f₁.results.all.peek i q d =
          if d = l then results.getD (i * (q + 1) + q) 0 else f.results.all.peek i q d) ∧
        Leads (ask options operator q f l) ⟨a, frame, requests⟩ (.ok f₁)
          ⟨a, frame, requests.push (f.requestAlong q l)⟩
    | .error halt => Leads (ask options operator q f l) ⟨a, frame, requests⟩
        (.error (halt.stop q l)) ⟨a, frame, requests.push (f.requestAlong q l)⟩ := by
  unfold ask Operator.answer
  cases hreply : operator.forward (f.requestAlong q l) with
  | accept results =>
    obtain ⟨hasked, hpeek⟩ := h.answer hq hl results.size_toArray
    refine ⟨_, hasked, hpeek, (leads_request _).bind ?_⟩
    have hreply' : operator.forward ((f.turn q l).request q) = .accept results := hreply
    simp only [hreply']
    exact leads_pure _
  | refuse =>
    refine (leads_request _).bind ?_
    have hreply' : operator.forward ((f.turn q l).request q) = .refuse := hreply
    simp only [hreply']
    exact (leads_report options _).bind (leads_throw _)
  | fault report =>
    refine (leads_request _).bind ?_
    have hreply' : operator.forward ((f.turn q l).request q) = .fault report := hreply
    simp only [hreply']
    exact leads_throw _

/-- Asks along `c` directions from `l` on. Either all requests are answered, and the frame has the
answers, or the replay stops at the first that is not. -/
theorem leads_asks (hargs : f₀.args.Sized f₀.argCount q r)
    (hresults : f₀.results.Sized f₀.resultCount q r) (hq : 0 < q) {c : Nat} (hl : l + c ≤ r)
    (h : Asked q r f₀ f) :
    (∃ f₁, Asked q r f₀ f₁ ∧
      (∀ d, l ≤ d → d < l + c → ∃ results, operator.answer (f₀.requestAlong q d) = .ok results ∧
        ∀ i < f₀.resultCount,
          f₁.results.all.peek i q d = results.getD (i * (q + 1) + q) 0) ∧
      (∀ d < l, ∀ i < f₀.resultCount, f₁.results.all.peek i q d = f.results.all.peek i q d) ∧
      Leads (Loop.fold c l (ask options operator q) f) ⟨a, frame, requests⟩ (.ok f₁)
        ⟨a, frame, requests ++ ((List.range' l c).map (f₀.requestAlong q)).toArray⟩) ∨
    ∃ d halt, d < c ∧
      (∀ d', l ≤ d' → d' < l + d → ∃ results,
        operator.answer (f₀.requestAlong q d') = .ok results) ∧
      operator.answer (f₀.requestAlong q (l + d)) = .error halt ∧
      Leads (Loop.fold c l (ask options operator q) f) ⟨a, frame, requests⟩
        (.error (halt.stop q (l + d)))
        ⟨a, frame, requests ++ ((List.range' l (d + 1)).map (f₀.requestAlong q)).toArray⟩ := by
  induction c generalizing l f requests with
  | zero =>
    refine Or.inl ⟨f, h, fun _ _ _ => by omega, fun _ _ _ _ => rfl, ?_⟩
    simpa [Loop.fold] using leads_pure f
  | succ c ih =>
    have hask := leads_ask operator options a frame requests h hq (show l < r by omega)
    rw [h.requestAlong_eq (by omega) hargs hresults] at hask
    have hpush (n : Nat) : requests ++
        ((List.range' l (n + 1)).map (f₀.requestAlong q)).toArray =
        requests.push (f₀.requestAlong q l) ++
          ((List.range' (l + 1) n).map (f₀.requestAlong q)).toArray := by
      simp [List.range'_succ]
    cases hanswer : operator.answer (f₀.requestAlong q l) with
    | error halt =>
      rw [hanswer] at hask
      refine Or.inr ⟨0, halt, Nat.succ_pos c, fun _ _ _ => by omega, hanswer, ?_⟩
      rw [hpush]
      simpa [Loop.fold] using hask.bind_error
    | ok results =>
      rw [hanswer] at hask
      obtain ⟨f', hf', hpeek, hask⟩ := hask
      rcases ih (l := l + 1) (requests.push (f₀.requestAlong q l)) (by omega) hf' with
        ⟨f₁, hf₁, hanswers, hkept, hrest⟩ | ⟨d, halt, hd, hbefore, hhalt, hrest⟩
      · refine Or.inl ⟨f₁, hf₁, fun d hle hlt => ?_, fun d hd i hi => ?_, ?_⟩
        · by_cases hlater : l + 1 ≤ d
          · exact hanswers d hlater (by omega)
          · have hfirst : d = l := by omega
            rw [hfirst]
            refine ⟨results, hanswer, fun i hi => ?_⟩
            rw [hkept l (Nat.lt_succ_self l) i hi, hpeek i hi l (by omega), if_pos rfl]
        · rw [hkept d (by omega) i hi, hpeek i hi d (by omega), if_neg (by omega)]
        · rw [hpush]
          exact hask.bind hrest
      · have hindex : l + 1 + d = l + (d + 1) := by omega
        rw [hindex] at hhalt hrest
        refine Or.inr ⟨d + 1, halt, by omega, fun d' hle hlt => ?_, hhalt, ?_⟩
        · by_cases hlater : l + 1 ≤ d'
          · exact hbefore d' hlater (by omega)
          · have hfirst : d' = l := by omega
            rw [hfirst]
            exact ⟨results, hanswer⟩
        · rw [hpush]
          exact hask.bind hrest

end Replay

end JetTape
