import Mathlib.Data.Finset.Insert
import Mathlib.Data.Finset.Erase
import OpenMama.Lib.IndexedFold
import OpenMama.Mamda.DepthView

/-!
# The deltas that the depth filter forwards

A client starts from the truncated view of a recap and replays the deltas that the
filter hands out on the prices it has.  An ADD must name a new price, an UPDATE or
a DELETE one that it has (`Client.step`).

`DepthFilter.replayed_of_run` says that the client then has the prices of the
truncated book after every event.  The cached price need not be that of the worst
level for this: it is enough that it tells what is in view from what is not
(`HalfOk`), and that a stale price does.  A level that comes into view is announced
by its entries, so one that shows none is not announced at all where entries are
processed; `ForwardFits` leaves that out.
-/

namespace Mamda

open Mama Lib SortedMap List

def prices (m : PtrMap) : Finset Price := (m.toList.map Prod.fst).toFinset

theorem mem_prices {m : PtrMap} {p : Price} : p ∈ prices m ↔ m.find? p ≠ none := by
  rw [prices, mem_toFinset, mem_map, find?_ne_none]
  constructor
  · rintro ⟨⟨q, r⟩, hmem, rfl⟩; exact ⟨r, hmem⟩
  · rintro ⟨r, hmem⟩; exact ⟨(p, r), hmem, rfl⟩

theorem prices_insert (m : PtrMap) (p : Price) (r : Ref) :
    prices (m.insert p r) = insert p (prices m) := by
  ext q
  rw [Finset.mem_insert, mem_prices, mem_prices, find?_insert]
  by_cases hq : q = p <;> simp [hq]

theorem prices_erase (m : PtrMap) (p : Price) : prices (m.erase p) = (prices m).erase p := by
  ext q
  rw [Finset.mem_erase, mem_prices, mem_prices, find?_erase]
  by_cases hq : q = p <;> simp [hq]

/-! ## The client -/

abbrev Client := Sides (Finset Price)

/-- A price-level action on the prices of one half, where it fits. -/
def Client.stepHalf (action : Action) (p : Price) (v : Finset Price) : Option (Finset Price) :=
  match action with
  | .add => if p ∈ v then none else some (insert p v)
  | .update => if p ∈ v then some v else none
  | .delete => if p ∈ v then some (v.erase p) else none
  | .unknown => some v

def Client.step (d : BasicDelta) (c : Client) : Option Client :=
  let s := d.level.deltaSide
  (Client.stepHalf d.plAction d.level.price (c.get s)).map (c.set s)

def DepthFilter.view (x : DepthFilter) : Client :=
  ⟨prices x.halves.bid.levels, prices x.halves.ask.levels⟩

theorem DepthFilter.get_view (x : DepthFilter) (s : BookSide) :
    x.view.get s = prices (x.halves.get s).levels := by
  cases s <;> rfl

theorem Sides.set_set {α : Type} (x : Sides α) (s : BookSide) (a a' : α) :
    (x.set s a).set s a' = x.set s a' := by
  cases s <;> rfl

theorem Client.run_half {s : BookSide} (ds : List BasicDelta) :
    ∀ {c : Client} {v v' : Finset Price}, (∀ d ∈ ds, d.level.deltaSide = s) → c.get s = v →
      run (fun d => Client.stepHalf d.plAction d.level.price) ds v = some v' →
      run Client.step ds c = some (c.set s v') := by
  induction ds with
  | nil =>
    intro c v v' _ hv hrun
    cases hrun
    have hset : c.set s (c.get s) = c := by cases s <;> rfl
    rw [← hv, hset]
    rfl
  | cons d ds ih =>
    intro c v v' hside hv hrun
    rw [run_cons] at hrun ⊢
    obtain ⟨w, hw, hrest⟩ := Option.bind_eq_some_iff.mp hrun
    have hstep : Client.step d c = some (c.set s w) := by
      unfold Client.step
      rw [hside d mem_cons_self]
      dsimp only
      rw [hv, hw]
      rfl
    have hw' : (c.set s w).get s = w := by simp
    rw [hstep, Option.bind_some, ih (fun d' hd' => hside d' (mem_cons_of_mem _ hd')) hw' hrest,
      Sides.set_set]

/-! ## What a step forwards -/

/-- A delta that is forwarded right: an UPDATE in scope is of a level of the book, and a level
that comes into view has something to be announced by. -/
def ForwardFits (processesEntries : Bool) (n : Nat) (full : PtrMap) (b : FullBook) (s : BookSide)
    (h : HalfView) (d : BasicDelta) : Prop :=
  OutOfScope n s h d ∨
    match d.plAction with
    | .update => full.find? d.level.price ≠ none
    | .delete => ∀ a, b.getLevelAtPosition (sizeDec h.depth % 2 ^ 32) s = some a →
        processesEntries → b.shown a.2 ≠ []
    | _ => True

namespace DepthFilter

theorem kept_level (processesEntries : Bool) (d : BasicDelta) :
    (kept processesEntries d).level = d.level ∧
      (kept processesEntries d).plAction = d.plAction := by
  unfold kept
  split <;> exact ⟨rfl, rfl⟩

theorem deltaSide_level (b : FullBook) (s : BookSide) (a : Price × Ref) :
    (b.level s a).deltaSide = s := by
  cases s <;> rfl

variable {l : PriceLevel}

theorem run_levelDeltas {processesEntries : Bool} {b : FullBook}
    (hshown : processesEntries → b.shown l.ref ≠ []) {v : Finset Price} (hnew : l.price ∉ v) :
    run (fun d => Client.stepHalf d.plAction d.level.price) (levelDeltas processesEntries b l) v =
      some (insert l.price v) := by
  have hupdates : ∀ (es : List Entry) (i : Nat),
      run (fun d => Client.stepHalf d.plAction d.level.price)
        (es.mapIdx fun j e => (⟨some e, l, e.size, if j + (i + 1) = 0 then .add else .update,
          .add⟩ :
          BasicDelta)) (insert l.price v) = some (insert l.price v) := by
    intro es
    induction es with
    | nil => exact fun _ => rfl
    | cons e es ih =>
      intro i
      rw [mapIdx_cons, run_cons]
      have hstep : Client.stepHalf (if 0 + (i + 1) = 0 then Action.add else Action.update) l.price
          (insert l.price v) = some (insert l.price v) := by
        exact if_pos (Finset.mem_insert_self _ _)
      rw [hstep]
      have hrest := ih (i + 1)
      exact hrest
  have hadd : Client.stepHalf .add l.price v = some (insert l.price v) := if_neg hnew
  unfold levelDeltas
  cases processesEntries with
  | false => rw [if_neg Bool.false_ne_true, run_cons, hadd]; rfl
  | true =>
    rw [if_pos rfl]
    cases hes : b.shown l.ref with
    | nil => exact absurd hes (hshown rfl)
    | cons e es => rw [mapIdx_cons, run_cons, if_pos rfl, hadd]; exact hupdates es 0

theorem deltaSide_levelDeltas {processesEntries : Bool} {b : FullBook} :
    ∀ d ∈ levelDeltas processesEntries b l, d.level = l := by
  intro d hd
  unfold levelDeltas at hd
  split at hd
  · obtain ⟨i, hi, rfl⟩ := mem_mapIdx.mp hd
    rfl
  · rw [mem_singleton.mp hd]

end DepthFilter

section Step

variable {n : Nat} {full : PtrMap} {b : FullBook} {s : BookSide} {d : BasicDelta}
  {h h' : HalfView} {processesEntries : Bool} {out : List BasicDelta}

open DepthFilter

theorem HalfStep.deltaSide (hstep : HalfStep processesEntries n b s d h h' out)
    (hside : d.level.deltaSide = s) : ∀ d' ∈ out, d'.level.deltaSide = s := by
  have hkept : (kept processesEntries d).level.deltaSide = s := by
    rw [(kept_level processesEntries d).1, hside]
  intro d' hd'
  cases hstep with
  | outside => cases hd'
  | unknown => cases hd'
  | update => rwa [mem_singleton.mp hd']
  | addSmall => rwa [mem_singleton.mp hd']
  | deleteLast => rwa [mem_singleton.mp hd']
  | addFull _ _ _ _ worst =>
    rcases mem_cons.mp hd' with rfl | hd'
    · exact hkept
    · rw [mem_singleton.mp hd']; exact deltaSide_level b s worst
  | deletePull _ _ _ a =>
    rcases mem_cons.mp hd' with rfl | hd'
    · exact hkept
    · rw [deltaSide_levelDeltas d' hd']; exact deltaSide_level b s a

/-- **A client keeps up with a step.** -/
theorem HalfStep.replay (hstep : HalfStep processesEntries n b s d h h' out)
    (hok : HalfOk n full s h) (hfits : DeltaFits n full b s h d)
    (hforward : ForwardFits processesEntries n full b s h d) :
    run (fun d => Client.stepHalf d.plAction d.level.price) out (prices h.levels) =
      some (prices h'.levels) := by
  obtain ⟨hlevel, haction'⟩ := kept_level processesEntries d
  cases hstep with
  | outside hout => rfl
  | unknown hin haction => rfl
  | update hin haction =>
    have hbook := hforward.resolve_left hin
    rw [haction] at hbook
    have hmem := mem_prices.mpr (hok.find?_ne_none hin hbook)
    rw [run_cons, hlevel, haction', haction]
    show (if _ then _ else _ : Option _).bind _ = _
    rw [if_pos hmem]
    rfl
  | addSmall hin haction hdepth hnone =>
    have hmem : d.level.price ∉ prices h.levels := fun hmem => mem_prices.mp hmem hnone
    rw [run_cons, hlevel, haction', haction]
    show (if _ then _ else _ : Option _).bind _ = _
    rw [if_neg hmem, prices_insert]
    rfl
  | addFull hin haction hdepth hnone worst last rest hview =>
    have hmem : d.level.price ∉ prices h.levels := fun hmem => mem_prices.mp hmem hnone
    have hsizes := hfits.resolve_left hin
    rw [haction] at hsizes
    rw [FullBook.visible_eq (hsizes.2 hdepth)] at hview
    obtain ⟨hworst, -⟩ := worst_two hview
    have hworst' : worst.1 ∈ insert d.level.price (prices h.levels) := by
      rw [← prices_insert h.levels d.level.price d.level.ref, mem_prices, hworst]
      exact Option.some_ne_none _
    rw [run_cons, hlevel, haction', haction]
    show (if _ then _ else _ : Option _).bind _ = _
    rw [if_neg hmem]
    show (if worst.1 ∈ insert d.level.price (prices h.levels) then
      some ((insert d.level.price (prices h.levels)).erase worst.1) else none).bind _ = _
    rw [if_pos hworst', prices_erase, prices_insert]
    rfl
  | deletePull hin haction hsome a hnext hnew =>
    have hshown := hforward.resolve_left hin
    rw [haction] at hshown
    have hmem := mem_prices.mpr hsome
    have hnew' : (b.level s a).price ∉ (prices h.levels).erase d.level.price := by
      rw [← prices_erase]; exact fun hmem => mem_prices.mp hmem hnew
    rw [run_cons, hlevel, haction', haction]
    show (if _ then _ else _ : Option _).bind _ = _
    rw [if_pos hmem, Option.bind_some, run_levelDeltas (hshown a hnext) hnew', prices_insert,
      prices_erase]
    rfl
  | deleteLast hin haction hsome hnext =>
    have hmem := mem_prices.mpr hsome
    rw [run_cons, hlevel, haction', haction]
    show (if _ then _ else _ : Option _).bind _ = _
    rw [if_pos hmem, prices_erase]
    rfl

end Step

/-! ## Runs -/

variable {x : DepthFilter}

namespace DepthFilter

def Right (x : DepthFilter) (full : Sides PtrMap) : Prop :=
  ∀ s, HalfOk x.maxDepth (full.get s) s (x.halves.get s)

def DeltasForward (b : FullBook) : DepthFilter → Sides PtrMap → List BasicDelta → Prop
  | _, _, [] => True
  | x, full, d :: ds =>
    let s := d.level.deltaSide
    DeltaFits x.maxDepth (full.get s) b s (x.halves.get s) d ∧
      ForwardFits x.processesEntries x.maxDepth (full.get s) b s (x.halves.get s) d ∧
      ∀ y, process b x d = .ok y → DeltasForward b y (worked full d) ds

/-- A step that keeps the halves right and a client up to date. -/
structure Replays (x : DepthFilter) (full : Sides PtrMap) (out : List BasicDelta)
    (y : DepthFilter) : Prop where
  collects : Collects y
  maxDepth : y.maxDepth = x.maxDepth
  right : y.Right full
  sent : y.sent = x.sent ++ out
  client : run Client.step out x.view = some y.view

theorem replays_process (hx : Collects x) {full : Sides PtrMap} (hn : 0 < x.maxDepth)
    (hn' : x.maxDepth < 2 ^ 64) (hright : x.Right full) {b : FullBook} {d : BasicDelta}
    (hside : d.level.side ≠ .unknown)
    (hfits : DeltaFits x.maxDepth (full.get d.level.deltaSide) b d.level.deltaSide
      (x.halves.get d.level.deltaSide) d)
    (hforward : ForwardFits x.processesEntries x.maxDepth (full.get d.level.deltaSide) b
      d.level.deltaSide (x.halves.get d.level.deltaSide) d) :
    ∃ y out, process b x d = .ok y ∧ Replays x (worked full d) out y := by
  have hok := hright d.level.deltaSide
  obtain ⟨h', out, hstep⟩ := hok.step hn hfits x.processesEntries
  obtain ⟨y, hy, my⟩ := process_spec hx hside hstep
  refine ⟨y, out, hy, my.collects, my.maxDepth, fun s => ?_, my.sent, ?_⟩
  · rw [my.maxDepth]
    rw [worked, Sides.get_set]
    by_cases hs : s = d.level.deltaSide
    · rw [if_pos hs, hs, my.half]; exact hstep.ok hok hn' hfits
    · rw [if_neg hs, my.other s hs]; exact hright s
  have hreplay := hstep.replay hok hfits hforward
  have hrun := Client.run_half out (hstep.deltaSide rfl) (x.get_view d.level.deltaSide) hreplay
  rw [hrun]
  refine congrArg some (Sides.ext fun s => ?_)
  rw [Sides.get_set, y.get_view s]
  by_cases hs : s = d.level.deltaSide
  · rw [if_pos hs, hs, my.half]
  · rw [if_neg hs, my.other s hs, x.get_view s]

theorem replays_deltas {b : FullBook} (ds : List BasicDelta) : ∀ {x : DepthFilter}
    {full : Sides PtrMap}, Collects x → 0 < x.maxDepth → x.maxDepth < 2 ^ 64 → x.Right full →
    (∀ d ∈ ds, d.level.side ≠ .unknown) → DeltasForward b x full ds →
    ∃ y out, ds.foldlM (process b) x = .ok y ∧ Replays x (ds.foldl worked full) out y := by
  induction ds with
  | nil =>
    intro x full hx _ _ hright _ _; exact ⟨x, [], rfl, hx, rfl, hright, (append_nil _).symm, rfl⟩
  | cons d ds ih =>
    intro x full hx hn hn' hright hsides hfit
    obtain ⟨hfits, hforward, hrest⟩ := hfit
    obtain ⟨y, out, hy, my⟩ := replays_process hx hn hn' hright (hsides d mem_cons_self)
      hfits hforward
    obtain ⟨z, out', hz, mz⟩ := ih my.collects (my.maxDepth ▸ hn) (my.maxDepth ▸ hn') my.right
      (fun d' hd' => hsides d' (mem_cons_of_mem _ hd')) (hrest y hy)
    refine ⟨z, out ++ out', ?_, mz.collects, mz.maxDepth.trans my.maxDepth, mz.right, ?_, ?_⟩
    · rwa [foldlM_cons, hy]
    · rw [mz.sent, my.sent, append_assoc]
    · rw [run_append, my.client]; exact mz.client

/-- What is forwarded is right in every event of a run. -/
def AllForward : DepthFilter → Sides PtrMap → List DepthEvent → Prop
  | _, _, [] => True
  | x, full, e :: es =>
    DeltasForward e.after x full e.deltas ∧
      ∀ y, e.handle x = .ok y → AllForward y e.after.levels es

/-- Every event of a run is handled without an exception, and a client that had the prices `c` and
replays what the handlers are given then has those of the truncated book. -/
def AllReplayed : Client → DepthFilter → List DepthEvent → Prop
  | _, _, [] => True
  | c, x, e :: es => ∃ y out c', e.handle x = .ok y ∧
      y.handed.flatten = x.handed.flatten ++ out ∧ run Client.step out c = some c' ∧
      c' = y.view ∧ AllReplayed c' y es

end DepthFilter

def DepthEvent.IsDelta : DepthEvent → Prop
  | simple _ _ => True
  | complex _ _ => True
  | _ => False

namespace DepthFilter

/-- **One event.** -/
theorem replays_event (hx : Collects x) (hwaiting : x.waiting = []) (hn : 0 < x.maxDepth)
    (hn' : x.maxDepth < 2 ^ 64) {full : Sides PtrMap} (hright : x.Right full) {e : DepthEvent}
    (hdelta : e.IsDelta) (hdelivered : e.Delivered full)
    (hfit : DeltasForward e.after x full e.deltas) : ∃ y out, e.handle x = .ok y ∧ y.waiting = [] ∧
    y.handed.flatten = x.handed.flatten ++ out ∧ Replays x e.after.levels out y := by
  obtain ⟨hafter, -, hsided⟩ := hdelivered
  have hdeltas : ∃ y out, x.onBookComplexDelta e.after e.deltas = .ok y ∧ y.waiting = [] ∧
      y.handed.flatten = x.handed.flatten ++ out ∧
      Replays x (e.deltas.foldl worked full) out y := by
    obtain ⟨y, out, hy, my⟩ := replays_deltas e.deltas hx hn hn' hright hsided hfit
    obtain ⟨hcollects, hnone, hsent⟩ := my.collects.invoke
    have hsame : y.invokeDeltaHandlers.maxDepth = y.maxDepth ∧
        y.invokeDeltaHandlers.halves = y.halves := by
      unfold invokeDeltaHandlers
      split <;> exact ⟨rfl, rfl⟩
    have hview : y.invokeDeltaHandlers.view = y.view := by
      unfold view
      rw [hsame.2]
    have hhanded : ∀ z : DepthFilter, z.waiting = [] → z.sent = z.handed.flatten := by
      intro z hz
      rw [sent, hz, append_nil]
    refine ⟨y.invokeDeltaHandlers, out, ?_, hnone, ?_, hcollects, hsame.1.trans my.maxDepth, ?_,
      hsent.trans my.sent, ?_⟩
    · rw [onBookComplexDelta, hy]; rfl
    · rw [← hhanded _ hnone, hsent, my.sent, hhanded x hwaiting]
    · intro s
      rw [hsame.1, hsame.2]
      exact my.right s
    · rw [hview]; exact my.client
  cases e with
  | recap b => exact hdelta.elim
  | clear b => exact hdelta.elim
  | simple d b =>
    obtain ⟨y, out, hy, hrest⟩ := hdeltas
    refine ⟨y, out, ?_, hrest.1, hrest.2.1, ?_⟩
    · have hone : x.onBookComplexDelta b [d] = x.onBookDelta b d := by
        rw [onBookComplexDelta, onBookDelta, foldlM_cons]
        cases process b x d <;> rfl
      exact hone.symm.trans hy
    · show Replays x b.levels out y
      rw [hafter]
      exact hrest.2.2
  | complex ds b =>
    obtain ⟨y, out, hy, hrest⟩ := hdeltas
    refine ⟨y, out, hy, hrest.1, hrest.2.1, ?_⟩
    show Replays x b.levels out y
    rw [hafter]
    exact hrest.2.2

theorem replayed_run (es : List DepthEvent) : ∀ {x : DepthFilter} {full : Sides PtrMap},
    Collects x → x.waiting = [] → 0 < x.maxDepth → x.maxDepth < 2 ^ 64 → x.Right full →
    (∀ e ∈ es, e.IsDelta) → AllDelivered full es → AllForward x full es →
    AllReplayed x.view x es := by
  induction es with
  | nil => exact fun _ _ _ _ _ _ _ _ => trivial
  | cons e es ih =>
    intro x full hx hwaiting hn hn' hright hdeltas hdelivered hfit
    obtain ⟨y, out, hy, hnone, hhanded, my⟩ := replays_event hx hwaiting hn hn' hright
      (hdeltas e mem_cons_self) hdelivered.1 hfit.1
    exact ⟨y, out, y.view, hy, hhanded, my.client, rfl,
      ih my.collects hnone (my.maxDepth ▸ hn) (my.maxDepth ▸ hn') my.right
        (fun e' he' => hdeltas e' (mem_cons_of_mem _ he')) hdelivered.2 (hfit.2 y hy)⟩

/-- **The forwarded deltas lead a client along**: after a recap with levels on both sides, in a
filter of depth one or more, a client that starts from the truncated view has its prices after
every delta event of a run, if every delta fits and what it forwards is right. -/
theorem replayed_of_run (maxDepth : Nat) (hpos : 0 < maxDepth) (hsize : maxDepth < 2 ^ 64)
    (processesEntries : Bool) (junk : Sides Price) (b : FullBook)
    (hboth : ∀ s, (b.levels.get s).toList ≠ [])
    (hsized : ∀ s p r, (b.levels.get s).find? p = some r → (b.object r).size ≠ 0)
    (es : List DepthEvent) (hdeltas : ∀ e ∈ es, e.IsDelta) (hdelivered : AllDelivered b.levels es)
    (hfit : ∀ x, (new maxDepth processesEntries junk).onBookRecap b = .ok x →
      x.AllForward b.levels es) :
    ∃ x, (new maxDepth processesEntries junk).onBookRecap b = .ok x ∧
      AllReplayed x.view x es := by
  have hx : Collects (new maxDepth processesEntries junk) :=
    ⟨rfl, rfl, fun h => by cases h⟩
  obtain ⟨y, hy, hcollects, hdepth, hsent, hshows⟩ := shows_recap hx hpos hboth hsized
  have hy' : y.maxDepth = maxDepth := hdepth
  have hwaiting : y.waiting = [] := (append_eq_nil_iff.mp hsent).2
  refine ⟨y, hy, replayed_run es hcollects hwaiting (hy' ▸ hpos) (hy' ▸ hsize) ?_ hdeltas
    hdelivered (hfit y hy)⟩
  exact fun s => ((showsHalf_iff (hy' ▸ hpos)).mp (hshows s)).1

end DepthFilter

/-- An ADD, a DELETE and an UPDATE are forwarded, and the ADDs of levels that go out of view and
come into it. -/
theorem replayed_bidDeltas :
    ∃ x, (DepthFilter.new 2 true ⟨0, 0⟩).onBookRecap threeBids = .ok x ∧
      DepthFilter.AllReplayed x.view x bidDeltas := by
  refine DepthFilter.replayed_of_run 2 Nat.two_pos (by decide) true ⟨0, 0⟩ threeBids
    (fun s => by cases s <;> exact cons_ne_nil _ _) (fun _ _ _ _ => Nat.one_ne_zero) bidDeltas
    (fun e he => ?_) bidDeltas_delivered
    fun x hx => ⟨⟨?_, .inr trivial, fun _ _ => trivial⟩,
      fun y hy => ⟨⟨?_, ?_, fun z _ => ⟨.inr trivial, ?_, fun _ _ => trivial⟩⟩,
        fun _ _ => trivial⟩⟩
  · rcases mem_pair.mp he with rfl | rfl <;> exact trivial
  · exact .inr ⟨by decide +kernel, fun _ _ _ _ => Nat.one_ne_zero⟩
  · refine .inr ⟨by decide +kernel, ?_⟩
    rw [show (y.halves.get deleteOfBid.level.deltaSide).depth = 2 from (bidDeltas_full hx).2 hy]
    decide +kernel
  · exact .inr fun _ _ _ => cons_ne_nil _ _
  · have hthere : ((worked bidAdded.levels deleteOfBid).get .bid).find? 12 ≠ none := by
      decide +kernel
    exact .inr hthere

def twoBids : FullBook :=
  bookOf ⟨(SortedMap.empty.insert 9 ⟨0, 2⟩).insert 10 ⟨0, 0⟩, SortedMap.empty.insert 11 ⟨0, 1⟩⟩

def nineLeft : FullBook :=
  bookOf ⟨SortedMap.empty.insert 9 ⟨0, 2⟩, SortedMap.empty.insert 11 ⟨0, 1⟩⟩

/-- The level that comes into view shows no entry, so the filter does not announce it. -/
theorem level_unannounced : DepthFilter.AllDelivered twoBids.levels [.simple deleteOfBid nineLeft] ∧
    ¬ ∃ x, (DepthFilter.new 1 true ⟨0, 0⟩).onBookRecap twoBids = .ok x ∧
    DepthFilter.AllReplayed x.view x [.simple deleteOfBid nineLeft] := by
  have hrun : (match (DepthFilter.new 1 true ⟨0, 0⟩).onBookRecap twoBids with
      | .ok x => match (DepthEvent.simple deleteOfBid nineLeft).handle x with
        | .ok y => (x.handed.flatten.length,
            (run Client.step y.handed.flatten x.view).map Sides.bid, some y.view.bid)
        | .error _ => (0, none, none)
      | .error _ => (0, none, none)) = (0, some ∅, some {9}) := by
    decide +kernel
  constructor
  · refine ⟨⟨?_, fun _ _ _ _ => Nat.one_ne_zero, ?_⟩, trivial⟩
    · show nineLeft.levels = worked twoBids.levels deleteOfBid
      refine Sides.ext fun s => ?_
      cases s <;> rfl
    · intro d hd
      rw [mem_singleton.mp hd]
      decide
  rintro ⟨x, hx, y, out, c, hy, hhanded, hclient, rfl, -⟩
  rw [hx] at hrun
  dsimp only at hrun
  rw [hy] at hrun
  obtain ⟨hnone, hrun⟩ := Prod.mk.inj hrun
  rw [eq_nil_of_length_eq_zero hnone, nil_append] at hhanded
  obtain ⟨hleft, hright⟩ := Prod.mk.inj hrun
  rw [hhanded, hclient, Option.map_some, hright] at hleft
  exact Finset.singleton_ne_empty _ (Option.some.inj hleft)

end Mamda
