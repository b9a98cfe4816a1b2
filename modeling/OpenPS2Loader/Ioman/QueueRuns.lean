import OpenPS2Loader.Ioman.Queue

/-!
# Runs of the I/O queue

Whatever the threads do, the worker processes the requests in the order they were put, each of them
once, except for those that were removed, and the end pointer is the last request of the list. The
counter of a type is the number of its requests in the list, and of those that were removed: it is
right exactly as long as no request of the type is removed.

## Main definitions

* `Ioman.Inv` — what every step keeps
* `Ioman.Fifo` — the order of the requests
* `Ioman.NoCountedRemoved` — the runs in which no request with a counter is removed

## Main results

* `Ioman.step_inv`, `Ioman.run_inv` — the invariant
* `Ioman.run_bookkeeping` — the bookkeeping of the queue, over all runs
-/

namespace OpenPS2Loader

namespace Ioman

open LinkedList

variable {handlers : ℤ → Bool} {l : LinkedList IoRequest} {ns : List (ℕ × IoRequest)}
  {s s' : Ioman} {e : Event}

/-! ### The list -/

theorem nodesFrom_of_seg {cells : ℕ → Option (Node IoRequest)} {fuel : ℕ} {ptr : Option ℕ}
    (h : Seg cells ptr ns none) (hfuel : ns.length ≤ fuel) : nodesFrom cells fuel ptr = ns := by
  induction ns generalizing fuel ptr with
  | nil =>
    rw [show ptr = none from h]
    cases fuel <;> rfl
  | cons n ns ih =>
    obtain ⟨a, x⟩ := n
    obtain ⟨rfl, next, hcell, hseg⟩ := h
    obtain ⟨fuel, rfl⟩ := Nat.exists_eq_add_of_le' (Nat.one_le_of_lt hfuel)
    rw [nodesFrom, hcell]
    dsimp only
    rw [ih hseg (Nat.le_of_succ_le_succ hfuel)]

theorem queued_of_rep (h : Rep s.queue ns) : s.queued = ns := nodesFrom_of_seg h.seg h.length_le

theorem fresh_pushBack {l' : LinkedList IoRequest} {x : IoRequest}
    (h : l.pushBack x = some l') : l'.fresh = l.fresh + 1 := by
  simp only [pushBack] at h
  split at h
  · cases h
    rfl
  · obtain ⟨n, -, rfl⟩ := Option.map_eq_some_iff.mp h
    rfl

theorem unlinkHead_of_rep {a : ℕ} {x : IoRequest} (h : Rep l ((a, x) :: ns)) :
    ∃ n, l.cells a = some n ∧ n.data = x ∧ Rep (unlinkHead l a n) ns := by
  obtain ⟨next, hcell, -, hrest⟩ := Rep.cell [] h
  obtain ⟨-, hnotin⟩ := Rep.not_mem [] h
  refine ⟨⟨x, next⟩, hcell, rfl, seg_update hrest hnotin _, ?_, fun b hb => ?_, ?_⟩
  · exact (List.nodup_cons.mp h.nodup).2
  · exact h.lt_fresh b (List.mem_cons_of_mem a hb)
  · have htail := h.tail
    have hnext := seg_head hrest
    rw [List.getLast?_cons] at htail
    simp only [unlinkHead]
    cases ns with
    | nil =>
      rw [if_pos (show next = none from hnext)]
      rfl
    | cons m ms =>
      rw [if_neg (by rw [hnext]; exact Option.some_ne_none _), htail, List.getLast?_cons]
      rfl

/-- Taking a request out is the general operation on lists with a tail pointer. -/
theorem unlinkRequest_eq {kept rest : List (ℕ × IoRequest)} {v : ℕ} {x : IoRequest}
    (h : Rep l (kept ++ (v, x) :: rest)) {next : Option ℕ} (hcell : l.cells v = some ⟨x, next⟩) :
    unlinkRequest l v next (kept.getLast?.map Prod.fst) =
      unlink l v next (kept.getLast?.map Prod.fst) := by
  obtain ⟨-, -, hkept, -⟩ := h.cell
  obtain ⟨hvkept, -⟩ := h.not_mem
  rcases List.eq_nil_or_concat kept with rfl | ⟨init, ⟨u, y⟩, rfl⟩
  · have hhead : l.head = some v := hkept
    simp only [List.getLast?_nil, Option.map_none, unlinkRequest, setNext, unlink, hhead,
      Option.bind_some, free, hcell, Option.map_some, if_true]
  · rw [List.concat_eq_append] at hkept hvkept ⊢
    have hhead : l.head ≠ some v := by
      have hmem : ∀ a, l.head = some a → a ∈ (init ++ [(u, y)]).map Prod.fst := by
        intro a ha
        cases init with
        | nil =>
          have : l.head = some u := hkept.1
          rw [this] at ha
          cases ha
          simp
        | cons m init =>
          have : l.head = some m.1 := hkept.1
          rw [this] at ha
          cases ha
          simp
      exact fun hv => hvkept (hmem v hv)
    obtain ⟨mid, -, rfl, next', hucell, hu⟩ := seg_append.mp hkept
    have hu' : next' = some v := hu
    subst hu'
    have huv : u ≠ v := fun he => hvkept (by simp [he])
    simp only [List.getLast?_concat, Option.map_some, unlinkRequest, setNext, unlink, hucell,
      Option.bind_some, free, hcell, if_neg hhead]
    rw [Function.update_of_ne (Ne.symm huv), hcell, Option.map_some, Option.map_some,
      Function.update_comm huv]

theorem removeLoop_of_rep (t : ℤ) {fuel : ℕ} (kept : List (ℕ × IoRequest))
    {rest : List (ℕ × IoRequest)}
    (h : Rep l (kept ++ rest)) {ptr : Option ℕ} (hptr : ptr = rest.head?.map Prod.fst)
    (hfuel : rest.length ≤ fuel) :
    ∃ l', removeLoop t fuel l ptr (kept.getLast?.map Prod.fst) =
        some (l', rest.filter fun n => n.2.type = t) ∧
      Rep l' (kept ++ rest.filter fun n => !decide (n.2.type = t)) ∧ l'.fresh = l.fresh := by
  induction rest generalizing fuel l kept ptr with
  | nil =>
    rw [show ptr = none from hptr]
    exact ⟨l, by cases fuel <;> rfl, h, rfl⟩
  | cons n rest ih =>
    obtain ⟨v, x⟩ := n
    rw [show ptr = some v from hptr]
    obtain ⟨fuel, rfl⟩ := Nat.exists_eq_add_of_le' (Nat.one_le_of_lt hfuel)
    obtain ⟨next, hcell, -, hrest⟩ := h.cell
    rw [removeLoop, hcell]
    dsimp only
    by_cases ht : x.type = t
    · rw [if_pos ht, unlinkRequest_eq h hcell, List.filter_cons_of_pos (by simpa using ht),
        List.filter_cons_of_neg (by simpa using ht)]
      obtain ⟨l₁, hl₁, hrep₁, hfresh₁⟩ := unlink_of_rep h hcell
      obtain ⟨l', hl', hrep', hfresh'⟩ := ih _ hrep₁ (seg_head hrest) (Nat.le_of_succ_le_succ hfuel)
      refine ⟨l', ?_, hrep', hfresh'.trans hfresh₁⟩
      rw [hl₁, Option.bind_some, hl']
      rfl
    · -- the request stays, and is the one before the next
      rw [if_neg ht, List.filter_cons_of_neg (by simpa using ht),
        List.filter_cons_of_pos (by simpa using ht)]
      have hkeep : Rep l ((kept ++ [(v, x)]) ++ rest) := by simpa using h
      obtain ⟨l', hl', hrep', hfresh'⟩ := ih _ hkeep (seg_head hrest) (Nat.le_of_succ_le_succ hfuel)
      rw [List.getLast?_concat] at hl'
      exact ⟨l', hl', by simpa using hrep', hfresh'⟩

/-! ### The invariant -/

/-- The requests that wait, when those in the list are `ns`. -/
def waitingOf (w : IoWorker) (ns : List (ℕ × IoRequest)) : List (ℕ × IoRequest) :=
  match w with
  | .running _ => ns.tail
  | _ => ns

/-- The list is well formed and holds `ns`, and the record of what happened agrees with it. -/
structure Inv (handlers : ℤ → Bool) (s : Ioman) (ns : List (ℕ × IoRequest)) : Prop where
  rep : Rep s.queue ns
  running : ∀ a, s.worker = .running a → ∃ x rest, ns = (a, x) :: rest
  order : s.put.filter (fun n => n ∉ s.removed) = s.processed ++ waitingOf s.worker ns
  nodup : (s.put.map Prod.fst).Nodup
  lt_fresh : ∀ n ∈ s.put, n.1 < s.queue.fresh
  removed : ∀ n ∈ s.removed, n ∈ s.put
  handled : ∀ n ∈ ns, handlers n.2.type = true
  pending : ∀ t, counted t = true → s.pending t = countType t ns + countType t s.removed

theorem inv_ioInit (handlers : ℤ → Bool) : Inv handlers ioInit [] where
  rep := rep_empty
  running _ h := nomatch h
  order := rfl
  nodup := List.nodup_nil
  lt_fresh _ hn := nomatch hn
  removed _ hn := nomatch hn
  handled _ hn := nomatch hn
  pending _ _ := rfl

/-! ### The steps -/

theorem countType_append (t : ℤ) (ns ms : List (ℕ × IoRequest)) :
    countType t (ns ++ ms) = countType t ns + countType t ms := List.countP_append

theorem countType_cons (t : ℤ) (n : ℕ × IoRequest) (ns : List (ℕ × IoRequest)) :
    countType t (n :: ns) = countType t ns + if n.2.type = t then 1 else 0 := by
  rw [countType, List.countP_cons, ← countType]
  simp only [decide_eq_true_eq]

theorem Inv.put (h : Inv handlers s ns) (type : ℤ) (data : ℕ) (alloc : Bool) :
    ∃ s' r ns', s.ioPutRequest handlers type data alloc = some (s', r) ∧ Inv handlers s' ns' ∧
      s'.removed = s.removed := by
  rw [ioPutRequest]
  split_ifs with hblocked hhandler halloc
  · exact ⟨s, _, ns, rfl, h, rfl⟩
  · exact ⟨s, _, ns, rfl, h, rfl⟩
  · exact ⟨s, _, ns, rfl, h, rfl⟩
  · obtain ⟨queue, hqueue, hrep⟩ := pushBack_of_rep h.rep ⟨type, data⟩
    have hfresh := fresh_pushBack hqueue
    have hnew : (s.queue.fresh, (⟨type, data⟩ : IoRequest)) ∉ s.removed := fun hn =>
      Nat.lt_irrefl _ (h.lt_fresh _ (h.removed _ hn))
    have hnotin : s.queue.fresh ∉ s.put.map Prod.fst := fun hn => by
      obtain ⟨n, hn, heq⟩ := List.mem_map.mp hn
      exact Nat.lt_irrefl _ (heq ▸ h.lt_fresh n hn)
    rw [hqueue]
    refine ⟨_, _, ns ++ [(s.queue.fresh, ⟨type, data⟩)], rfl,
      ⟨hrep, fun a ha => ?_, ?_, ?_, fun n hn => ?_, fun n hn => ?_, fun n hn => ?_,
        fun t ht => ?_⟩,
      rfl⟩
    · obtain ⟨x, rest, hns⟩ := h.running a ha
      exact ⟨x, rest ++ [(s.queue.fresh, ⟨type, data⟩)], by rw [hns]; rfl⟩
    · have hwait : waitingOf s.worker (ns ++ [(s.queue.fresh, ⟨type, data⟩)]) =
          waitingOf s.worker ns ++ [(s.queue.fresh, ⟨type, data⟩)] := by
        cases hw : s.worker with
        | asleep => rfl
        | draining => rfl
        | running a =>
          obtain ⟨x, rest, rfl⟩ := h.running a hw
          rfl
      dsimp only
      rw [hwait, List.filter_append, h.order, List.append_assoc]
      simp [hnew]
    · dsimp only
      rw [List.map_append, List.map_singleton, ← List.concat_eq_append, List.nodup_concat]
      exact ⟨hnotin, h.nodup⟩
    · dsimp only at hn ⊢
      rw [List.mem_append, List.mem_singleton] at hn
      rw [hfresh]
      obtain hn | rfl := hn
      · exact Nat.lt_succ_of_lt (h.lt_fresh n hn)
      · exact Nat.lt_succ_self _
    · exact List.mem_append_left _ (h.removed n hn)
    · rw [List.mem_append, List.mem_singleton] at hn
      obtain hn | rfl := hn
      · exact h.handled n hn
      · simpa using hhandler
    · have hpending := h.pending t ht
      dsimp only
      rw [countType_append, countType_cons, hpending]
      by_cases heq : type = t
      · subst heq
        rw [if_pos ⟨ht, rfl⟩, if_pos rfl]
        change _ = _ + (0 + 1) + _
        omega
      · rw [if_neg fun hc => heq hc.2.symm, if_neg heq]
        rfl

theorem Inv.take (h : Inv handlers s ns) (hw : s.worker = .draining) :
    ∃ s', s.take handlers = some s' ∧ Inv handlers s' ns ∧ s'.removed = s.removed := by
  have hhead := seg_head h.rep.seg
  have horder := h.order
  rw [hw] at horder
  rw [Ioman.take]
  cases ns with
  | nil =>
    rw [show s.queue.head = none from hhead]
    exact ⟨_, rfl, ⟨h.rep, fun a ha => (nomatch ha), horder, h.nodup, h.lt_fresh, h.removed,
      h.handled, h.pending⟩, rfl⟩
  | cons n ns =>
    obtain ⟨a, x⟩ := n
    obtain ⟨next, hcell, -, -⟩ := Rep.cell [] h.rep
    rw [show s.queue.head = some a from hhead]
    dsimp only
    rw [hcell, Option.map_some, if_pos (h.handled _ List.mem_cons_self)]
    refine ⟨_, rfl, ⟨h.rep, fun b hb => ?_, ?_, h.nodup, h.lt_fresh, h.removed, h.handled,
      h.pending⟩, rfl⟩
    · cases hb
      exact ⟨x, ns, rfl⟩
    · dsimp only
      rw [horder, List.append_assoc]
      rfl

theorem Inv.finish (h : Inv handlers s ns) {a : ℕ} (hw : s.worker = .running a) :
    ∃ s', s.finish a = some s' ∧ Inv handlers s' ns.tail ∧ s'.removed = s.removed := by
  obtain ⟨x, rest, rfl⟩ := h.running a hw
  have horder := h.order
  rw [hw] at horder
  obtain ⟨n, hcell, rfl, hrep⟩ := unlinkHead_of_rep h.rep
  rw [Ioman.finish, hcell]
  refine ⟨_, rfl, ⟨hrep, fun b hb => (nomatch hb), horder, h.nodup, h.lt_fresh, h.removed,
    fun m hm => h.handled m (List.mem_cons_of_mem _ hm), fun t ht => ?_⟩, rfl⟩
  have hpending := h.pending t ht
  rw [countType_cons] at hpending
  dsimp only
  by_cases heq : n.data.type = t
  · subst heq
    rw [if_pos rfl] at hpending
    rw [if_pos ⟨ht, rfl⟩, hpending, List.tail_cons]
    omega
  · rw [if_neg heq] at hpending
    rw [if_neg fun hc => heq hc.2.symm, hpending]
    rfl

theorem Inv.remove (h : Inv handlers s ns) (hw : s.worker = .asleep) (t : ℤ) :
    ∃ s' k, s.ioRemoveRequests t = some (s', k) ∧
      Inv handlers s' (ns.filter fun n => !decide (n.2.type = t)) ∧
      s'.removed = s.removed ++ ns.filter fun n => n.2.type = t := by
  obtain ⟨queue, hqueue, hrep, hfresh⟩ := removeLoop_of_rep t [] h.rep
    (seg_head h.rep.seg) h.rep.length_le
  have horder := h.order
  rw [hw] at horder
  have hnodup : (s.processed ++ ns).Nodup := by
    change (s.processed ++ waitingOf .asleep ns).Nodup
    rw [← horder]
    exact (h.nodup.of_map _).filter _
  have hmem : ∀ n ∈ ns, n ∈ s.put := fun n hn => by
    have hmem : n ∈ s.processed ++ waitingOf .asleep ns := List.mem_append_right _ hn
    rw [← horder] at hmem
    exact List.mem_of_mem_filter hmem
  refine ⟨{ s with queue := queue, removed := s.removed ++ ns.filter fun n => n.2.type = t },
    (ns.filter fun n => n.2.type = t).length, ?_,
    ⟨hrep, fun a ha => ?_, ?_, h.nodup, fun n hn => ?_, fun n hn => ?_, fun n hn => ?_,
      fun u hu => ?_⟩, rfl⟩
  · have hloop : removeLoop t s.queue.fresh s.queue s.queue.head none = some (queue, _) := hqueue
    rw [ioRemoveRequests, hloop]
    rfl
  · rw [hw] at ha
    cases ha
  · -- of the requests that are left, those of the type go
    have hsplit : s.put.filter (fun n => n ∉ s.removed ++ ns.filter fun n => n.2.type = t) =
        (s.put.filter fun n => n ∉ s.removed).filter
          fun n => n ∉ ns.filter fun n => n.2.type = t := by
      rw [List.filter_filter]
      refine List.filter_congr fun n _ => ?_
      simp only [List.mem_append, not_or, Bool.decide_and]
      exact Bool.and_comm _ _
    dsimp only
    rw [hsplit, horder, hw]
    change (s.processed ++ ns).filter _ = s.processed ++ ns.filter _
    rw [List.filter_append]
    congr 1
    · refine List.filter_eq_self.mpr fun n hn => ?_
      rw [decide_eq_true_eq]
      exact fun hgone =>
        (List.disjoint_of_nodup_append hnodup) hn (List.mem_of_mem_filter hgone)
    · refine List.filter_congr fun n hn => ?_
      by_cases htype : n.2.type = t <;> simp [htype, hn]
  · dsimp only
    rw [hfresh]
    exact h.lt_fresh n hn
  · obtain hn | hn := List.mem_append.mp hn
    · exact h.removed n hn
    · exact hmem n (List.mem_of_mem_filter hn)
  · exact h.handled n (List.mem_of_mem_filter hn)
  · have hpending := h.pending u hu
    have hsum := List.countP_eq_countP_filter_add ns (fun n => decide (n.2.type = u))
      fun n => decide (n.2.type = t)
    dsimp only
    rw [countType_append, hpending, countType, countType, countType, countType, hsum]
    omega

/-! ### Runs -/

/-- The requests are processed in the order they were put, each of them once, except for those that
were removed: what was put and not removed was processed, or waits, in this order. -/
structure Fifo (s : Ioman) : Prop where
  order : s.put.filter (fun n => n ∉ s.removed) = s.processed ++ s.waiting
  nodup : s.put.Nodup
  removed : ∀ n ∈ s.removed, n ∈ s.put

/-- `gReqEnd` is the last request of the list, and there is none when the list is empty. -/
def TailLast (s : Ioman) : Prop :=
  s.queue.head = s.queued.head?.map Prod.fst ∧ s.queue.tail = s.queued.getLast?.map Prod.fst

/-- The counters are right. -/
def Counted (s : Ioman) : Prop :=
  ∀ t, counted t = true → s.pending t = countType t s.queued

/-- The event removes a request of a type with a counter. -/
def RemovesCounted (s : Ioman) : Event → Prop
  | .remove t => counted t = true ∧ ∃ n ∈ s.queued, n.2.type = t
  | _ => False

/-- No step of the run removes a request of a type with a counter. -/
def NoCountedRemoved (handlers : ℤ → Bool) : Ioman → List Event → Prop :=
  Transition.RunOk (step handlers) fun s e => ¬ RemovesCounted s e

/-- No request of a type with a counter was removed so far. -/
def NoneRemoved (s : Ioman) : Prop := ∀ n ∈ s.removed, counted n.2.type = false

theorem Inv.fifo (h : Inv handlers s ns) : Fifo s := by
  refine ⟨?_, h.nodup.of_map _, h.removed⟩
  rw [h.order, waiting, queued_of_rep h.rep]
  rfl

theorem Inv.tailLast (h : Inv handlers s ns) : TailLast s := by
  rw [TailLast, queued_of_rep h.rep]
  exact ⟨seg_head h.rep.seg, h.rep.tail⟩

theorem Inv.counted_iff (h : Inv handlers s ns) : Counted s ↔ NoneRemoved s := by
  rw [Counted, queued_of_rep h.rep]
  constructor
  · intro hcounted n hn
    by_contra hne
    have ht := eq_true_of_ne_false hne
    have hpending := h.pending _ ht
    rw [hcounted _ ht] at hpending
    have hpos : 0 < countType n.2.type s.removed :=
      List.countP_pos_iff.mpr ⟨n, hn, decide_eq_true rfl⟩
    omega
  · intro hnone t ht
    have hzero : countType t s.removed = 0 := by
      refine List.countP_eq_zero.mpr fun n hn htype => ?_
      have hn := hnone n hn
      rw [decide_eq_true_eq.mp htype, ht] at hn
      cases hn
    rw [h.pending t ht, hzero, Nat.add_zero]

/-- **One step** keeps the invariant, and says what is removed. -/
theorem step_inv (h : Inv handlers s ns) (hstep : step handlers s e = some s') :
    (∃ ns', Inv handlers s' ns') ∧ (NoneRemoved s' ↔ NoneRemoved s ∧ ¬ RemovesCounted s e) := by
  have hkeep : s'.removed = s.removed → ¬ RemovesCounted s e →
      (NoneRemoved s' ↔ NoneRemoved s ∧ ¬ RemovesCounted s e) := by
    intro hremoved hno
    rw [NoneRemoved, hremoved, ← NoneRemoved]
    exact ⟨fun hnone => ⟨hnone, hno⟩, And.left⟩
  cases e with
  | put type data alloc =>
    obtain ⟨s₁, r, ns', hput, hinv, hremoved⟩ := h.put type data alloc
    rw [step, hput] at hstep
    cases hstep
    exact ⟨⟨ns', hinv⟩, hkeep hremoved id⟩
  | remove t =>
    rw [step] at hstep
    split_ifs at hstep with hw
    obtain ⟨s₁, k, hremove, hinv, hremoved⟩ := h.remove hw t
    rw [hremove] at hstep
    cases hstep
    refine ⟨⟨_, hinv⟩, ?_⟩
    rw [NoneRemoved, hremoved, RemovesCounted, queued_of_rep h.rep, NoneRemoved]
    constructor
    · intro hnone
      refine ⟨fun n hn => hnone n (List.mem_append_left _ hn), ?_⟩
      rintro ⟨ht, n, hn, rfl⟩
      have hfalse := hnone n
        (List.mem_append_right _ (List.mem_filter.mpr ⟨hn, decide_eq_true rfl⟩))
      rw [ht] at hfalse
      cases hfalse
    · rintro ⟨hnone, hno⟩ n hn
      obtain hn | hn := List.mem_append.mp hn
      · exact hnone n hn
      · obtain ⟨hn, htype⟩ := List.mem_filter.mp hn
        rw [decide_eq_true_eq] at htype
        refine Bool.eq_false_iff.mpr fun ht => hno ⟨?_, n, hn, htype⟩
        rwa [← htype]
  | block b =>
    cases hstep
    exact ⟨⟨ns, ⟨h.rep, h.running, h.order, h.nodup, h.lt_fresh, h.removed, h.handled, h.pending⟩⟩,
      hkeep rfl id⟩
  | wake =>
    rw [step] at hstep
    split_ifs at hstep with hw
    cases hstep
    have horder := h.order
    rw [hw] at horder
    exact ⟨⟨ns, ⟨h.rep, fun a ha => (nomatch ha), horder, h.nodup, h.lt_fresh, h.removed, h.handled,
      h.pending⟩⟩, hkeep rfl id⟩
  | take =>
    rw [step] at hstep
    split_ifs at hstep with hw
    obtain ⟨s₁, htake, hinv, hremoved⟩ := h.take hw
    rw [htake] at hstep
    cases hstep
    exact ⟨⟨ns, hinv⟩, hkeep hremoved id⟩
  | finish =>
    rw [step] at hstep
    split at hstep
    · rename_i a hw
      obtain ⟨s₁, hfinish, hinv, hremoved⟩ := h.finish hw
      rw [hfinish] at hstep
      cases hstep
      exact ⟨⟨_, hinv⟩, hkeep hremoved id⟩
    · cases hstep

/-- **A run** keeps the invariant. -/
theorem run_inv (h : Inv handlers s ns) {es : List Event}
    (hrun : Transition.run (step handlers) s es = some s') :
    (∃ ns', Inv handlers s' ns') ∧
      (NoneRemoved s' ↔ NoneRemoved s ∧ NoCountedRemoved handlers s es) := by
  induction es generalizing s ns with
  | nil =>
    cases hrun
    exact ⟨⟨ns, h⟩, fun hnone => ⟨hnone, trivial⟩, And.left⟩
  | cons e es ih =>
    obtain ⟨s₁, hstep, hrest⟩ := Transition.run_cons_eq_some.mp hrun
    obtain ⟨⟨ns₁, h₁⟩, hiff₁⟩ := step_inv h hstep
    obtain ⟨hinv, hiff⟩ := ih h₁ hrest
    refine ⟨hinv, ?_⟩
    rw [hiff, hiff₁, NoCountedRemoved, Transition.runOk_cons_of_eq_some hstep, and_assoc]

/-- **The bookkeeping of the queue.** In every state that any interleaving of the threads reaches,
requests are processed in order and none is lost or run twice, the end pointer is the last request,
and the counters are right exactly when no request of a counted type was removed on the way. -/
theorem run_bookkeeping (handlers : ℤ → Bool) (es : List Event) (s : Ioman)
    (hrun : Transition.run (step handlers) ioInit es = some s) :
    Fifo s ∧ TailLast s ∧ (Counted s ↔ NoCountedRemoved handlers ioInit es) := by
  obtain ⟨⟨ns, h⟩, hiff⟩ := run_inv (inv_ioInit handlers) hrun
  refine ⟨h.fifo, h.tailLast, ?_⟩
  rw [h.counted_iff, hiff]
  exact ⟨And.right, fun hno => ⟨fun n hn => (nomatch hn), hno⟩⟩

/-- Two requests are put while the worker is at work on the first one. -/
def busyRun : List Event :=
  [.put 4 7 true, .wake, .take, .put 2 8 true, .finish, .take, .finish, .take, .remove 4]

theorem run_busyRun : ∃ s, Transition.run (step fun _ => true) ioInit busyRun = some s ∧
    s.processed = [(0, ⟨4, 7⟩), (1, ⟨2, 8⟩)] ∧ Fifo s ∧ TailLast s ∧
      (Counted s ↔ NoCountedRemoved (fun _ => true) ioInit busyRun) :=
  ⟨_, rfl, rfl, run_bookkeeping (fun _ => true) busyRun _ rfl⟩

/-- A compatibility update is put, and removed before the worker gets to it: the list is empty, and
the counter stays at one. -/
theorem run_remove_counter : ∃ s,
    Transition.run (step fun _ => true) ioInit [.put 4 7 true, .remove 4] = some s ∧
      s.queued = [] ∧ s.pending 4 = 1 ∧ ¬ Counted s :=
  ⟨_, rfl, rfl, rfl, fun h => absurd (h 4 rfl) (by decide)⟩

end Ioman

end OpenPS2Loader
