import OpenMama.Mamda.BookDifference
import OpenMama.Mamda.OrderBookListener

/-!
# The books that are reached

A book comes about by calls of its own operations, by the recaps and updates that a
listener applies to it, and by what a caller does to its levels through pointers.
However that goes on, its levels lie under their own prices and sides
(`keepsLevels_of_reached`).
-/

namespace Mamda

open Mama Lib List Option

/-- The books that runs of calls and messages lead to, from new ones.  A level that is changed
through a pointer keeps its price and side; a market order level may be any. -/
inductive Reached : Book → Prop
  | new (addr : Nat) (sourceOk : Nat → Bool) (check publish : Bool) :
    Reached (Book.start addr sourceOk check publish)
  | level {b b' : Book} {o : LevelOp} (hb : Reached b)
    (hbook : ∀ book, o.book? = some book → Reached book) (hs : o.step b = some b') : Reached b'
  | entry {b b' : Book} {o : EntryOp} (hb : Reached b)
    (hbook : ∀ book filter, o = .addEntriesFromBook book filter → Reached book)
    (hs : o.step b = some b') : Reached b'
  | reevaluate {b : Book} (hb : Reached b) : Reached b.reevaluate
  | difference {b lhs rhs b' : Book} (hb : Reached b) (hl : Reached lhs) (hr : Reached rhs)
    (hs : b.setAsDeltaDifference lhs rhs = some b') : Reached b'
  | pointer {b : Book} {s : BookSide} {p : Price} {l l' : PriceLevel} (hb : Reached b)
    (hl : b.findLevel s p = some l) (hprice : l'.price = l.price) (hside : l'.side = l.side) :
    Reached (b.putLevel (.limit s p) l')
  | market {b : Book} (s : BookSide) (l : Option PriceLevel) (hb : Reached b) :
    Reached { b with marketOrders := b.marketOrders.set s l }
  | names {b : Book} (symbol partId : String) (hb : Reached b) :
    Reached { b with symbol := symbol, partId := partId }
  | recap {x y : Listener} {msg : BookMsg} (hx : Reached x.book) (hs : x.handleRecap msg = some y) :
    Reached y.book
  | update {x y : Listener} {msg : BookMsg} (hx : Reached x.book)
    (hs : x.handleUpdate msg = some y) : Reached y.book

namespace Book

def Filed (a : Nat) (b : Book) : Prop := b.KeepsLevels (anywhere false) a

section Filed

variable {a : Nat} {b : Book}
variable {l : PriceLevel} {s : BookSide} {b' : Book}
variable {p : Price}

theorem Filed.kept (hprice : l.price = p) (hside : l.side = s.side) :
    KeptAt (anywhere false) a (.limit s p) l :=
  ⟨hprice, hside, nofun, fun h => h⟩

section

variable (h : b.Filed a)

include h

theorem Filed.self : b.Filed b.addr := by rwa [h.addr]

theorem Filed.clear : b.clear.Filed a := ⟨h.addr, allLevels_of_empty rfl⟩

theorem Filed.congr (haddr : b'.addr = b.addr) (hlevels : b'.levels = b.levels) :
    b'.Filed a := by
  refine ⟨haddr.trans h.addr, fun s p l hl => h.levels s p l ?_⟩
  unfold findLevel at hl ⊢
  rwa [hlevels] at hl

/-! ## Entries -/

omit h in
theorem Filed.addEntriesFromLevel (s : BookSide) (p : Price) (filter : Entry → Bool)
    (es : List Entry) :
      ∀ {b : Book}, b.Filed a → (b.addEntriesFromLevel s p filter es).Filed a := by
  induction es with
  | nil => exact fun h => h
  | cons e es ih =>
    intro b h
    have hnext : { b with nextRef := b.nextRef + 1 }.Filed a := h.congr rfl rfl
    apply ih
    split
    · next l hl =>
      split
      · have hl' := hnext.levels s p l hl
        exact KeepsLevels.levelAddEntry hnext (Filed.kept hl'.price hl'.side) _
      · exact hnext
    · exact hnext

theorem Filed.addLevelEntries (filter : Entry → Bool) (hside : l.side = s.side) :
    (addLevelEntries filter s b l).Filed a := by
  have hcreated : (b.findOrCreateLevel s l.price l.side).1.Filed a := by
    rw [hside]; exact (KeepsLevels.findOrCreateLevel h s l.price fun hf => hf).1
  unfold Book.addLevelEntries
  cases l.entries with
  | none => exact hcreated
  | some es =>
    have hadded := hcreated.addEntriesFromLevel s l.price filter es
    dsimp only
    split
    · next l' hl' =>
      have hk := hadded.levels s l.price l' hl'
      exact KeepsLevels.putLevel hadded (Filed.kept (l := l'.setTime l.time) hk.price hk.side)
    · exact hadded

theorem Filed.addEntriesFromBook {a' : Nat} {book : Book} (hbook : book.Filed a')
    (filter : Entry → Bool) : (b.addEntriesFromBook book filter).Filed a := by
  have hside : ∀ (s : BookSide) (ls : List PriceLevel), (∀ l ∈ ls, l.side = s.side) →
      ∀ {b : Book}, b.Filed a → (ls.foldl (Book.addLevelEntries filter s) b).Filed a := by
    intro s ls hls
    induction ls with
    | nil => exact fun h => h
    | cons l ls ih =>
      intro b h
      exact ih (fun l' hl' => hls l' (mem_cons_of_mem l hl'))
        (h.addLevelEntries filter (hls l mem_cons_self))
  exact hside .ask _ (KeepsLevels.values hbook .ask).1
    (hside .bid _ (KeepsLevels.values hbook .bid).1 h)

theorem Filed.mapVal {f : PriceLevel → PriceLevel}
    (hf : ∀ l, (f l).price = l.price ∧ (f l).side = l.side) (haddr : b'.addr = b.addr)
    (hlevels : b'.levels = ⟨b.levels.bid.mapVal f, b.levels.ask.mapVal f⟩) : b'.Filed a := by
  refine ⟨haddr.trans h.addr, h.levels.mapVal f (fun s p l hk => ?_) hlevels⟩
  exact ⟨(hf l).1.trans hk.price, (hf l).2.trans hk.side, nofun, fun hfree => hfree⟩

omit h in
theorem foldl_uncountEntry_frame (counts : Entry → Bool) (es : List Entry) (l : PriceLevel) :
    (es.foldl (PriceLevel.uncountEntry counts) l).price = l.price ∧
      (es.foldl (PriceLevel.uncountEntry counts) l).side = l.side := by
  induction es generalizing l with
  | nil => exact ⟨rfl, rfl⟩
  | cons e es ih => exact ih (l.uncountEntry counts e)

theorem Filed.entryStep {o : EntryOp}
    (hbook : ∀ book filter, o = .addEntriesFromBook book filter → ∃ a', book.Filed a')
    (hs : o.step b = some b') : b'.Filed a := by
  cases o with
  | addEntry relink side p e t =>
    simp only [EntryOp.step] at hs
    split at hs
    · cases hs
    · cases hs; exact h
    · cases hs; exact KeepsLevels.addEntry h relink _ p e t fun hf => hf
  | updateEntry ref n t =>
    obtain ⟨r, hr, rfl⟩ := map_eq_some_iff.mp hs
    exact KeepsLevels.updateEntry h hr
  | deleteEntry ref t d =>
    obtain ⟨r, hr, rfl⟩ := map_eq_some_iff.mp hs
    exact KeepsLevels.deleteEntry h hr
  | addEntriesFromBook book filter =>
    obtain ⟨a', hb⟩ := hbook book filter rfl
    simp only [EntryOp.step] at hs
    split at hs
    · cases hs
    · cases hs; exact h.addEntriesFromBook hb filter
  | deleteEntriesFromSource source =>
    obtain ⟨-, hb'⟩ := ite_none_right_eq_some.mp hs
    cases hb'
    refine h.mapVal (fun l => ?_) rfl rfl
    unfold PriceLevel.deleteEntriesFromSource
    split
    · exact ⟨rfl, rfl⟩
    · exact foldl_uncountEntry_frame _ _ _

theorem Filed.reevaluate : b.reevaluate.Filed a := by
  unfold Book.reevaluate
  split
  · refine h.mapVal (fun l => ?_) rfl rfl
    unfold PriceLevel.reevaluate
    split <;> exact ⟨rfl, rfl⟩
  · exact h

/-! ## The difference of two books -/

theorem Filed.insertDiff (hprice : l.price = p) (hside : l.side = s.side) :
    (b.insertDiff s p l).Filed a := by
  unfold Book.insertDiff
  split
  · exact h
  · exact KeepsLevels.putLevel h (Filed.kept hprice hside)

theorem Filed.diffChanged {r : PriceLevel} (hprice : r.price = l.price)
    (hside : r.side = s.side) (hs : b.diffChanged s l r = some b') : b'.Filed a := by
  obtain ⟨diff, hdiff, rfl⟩ := map_eq_some_iff.mp hs
  have hnext : { b with nextRef := b.nextRef + 1 }.Filed a := h.congr rfl rfl
  have heq := some.inj hdiff
  exact hnext.insertDiff (by rw [← heq]; exact hprice) (by rw [← heq]; exact hside)

omit h in
theorem Filed.determineDiffs (lhs rhs : List PriceLevel) (hl : ∀ l ∈ lhs, l.side = s.side)
    (hr : ∀ r ∈ rhs, r.side = s.side) (h : b.Filed a) (hs : b.determineDiffs s lhs rhs = some b') :
    b'.Filed a := by
  have hadded : ∀ {b : Book} {r : PriceLevel}, b.Filed a → r.side = s.side →
      (b.diffAdded s r).Filed a := by
    intro b r h hside
    have htaken : (b.takeLevelCopy r).Filed a := h.congr rfl rfl
    exact htaken.insertDiff (l := b.diffCopy r) rfl hside
  have hdeleted : ∀ {b : Book} {l : PriceLevel}, b.Filed a → l.side = s.side →
      (b.diffDeleted s l).Filed a := by
    intro b l h hside
    have htaken : (b.takeLevelCopy l).Filed a := h.congr rfl rfl
    exact htaken.insertDiff (l := (b.diffCopy l).markAllDeleted) rfl hside
  induction b, lhs, rhs using Book.determineDiffs.induct s with
  | case1 b => rw [Book.determineDiffs] at hs; exact some.inj hs ▸ h
  | case2 b r rhs hbranch ih =>
    rw [Book.determineDiffs, if_pos hbranch] at hs
    exact ih hl (fun x hx => hr x (mem_cons_of_mem r hx))
      (hadded h (hr r mem_cons_self)) hs
  | case3 b r rhs hbranch => rw [Book.determineDiffs, if_neg hbranch] at hs; cases hs
  | case4 b l lhs hbranch ih =>
    rw [Book.determineDiffs, if_pos hbranch] at hs
    exact ih (fun x hx => hl x (mem_cons_of_mem l hx)) hr
      (hdeleted h (hl l mem_cons_self)) hs
  | case5 b l lhs hbranch => rw [Book.determineDiffs, if_neg hbranch] at hs; cases hs
  | case6 b l lhs r rhs hbranch ih =>
    rw [Book.determineDiffs, hbranch] at hs
    exact ih (fun x hx => hl x (mem_cons_of_mem l hx))
      (fun x hx => hr x (mem_cons_of_mem r hx)) h hs
  | case7 b l lhs r rhs hbranch ih =>
    rw [Book.determineDiffs, hbranch] at hs
    obtain ⟨c, hc, hs⟩ := bind_eq_some_iff.mp hs
    have hprice : r.price = l.price := by
      unfold PriceLevel.diffBranch at hbranch
      split at hbranch
      · cases hbranch
      · split at hbranch
        · next heq => exact heq.symm
        · split at hbranch <;> cases hbranch
    exact ih c (fun x hx => hl x (mem_cons_of_mem l hx))
      (fun x hx => hr x (mem_cons_of_mem r hx))
      (h.diffChanged hprice (hr r mem_cons_self) hc) hs
  | case8 b l lhs r rhs hbranch ih =>
    rw [Book.determineDiffs, hbranch] at hs
    exact ih hl (fun x hx => hr x (mem_cons_of_mem r hx))
      (hadded h (hr r mem_cons_self)) hs
  | case9 b l lhs r rhs hbranch ih =>
    rw [Book.determineDiffs, hbranch] at hs
    exact ih (fun x hx => hl x (mem_cons_of_mem l hx)) hr
      (hdeleted h (hl l mem_cons_self)) hs

theorem Filed.setAsDeltaDifference {lhs rhs : Book} {al ar : Nat} (hl : lhs.Filed al)
    (hr : rhs.Filed ar) (hs : b.setAsDeltaDifference lhs rhs = some b') : b'.Filed a := by
  obtain ⟨c, hc, hs⟩ := bind_eq_some_iff.mp hs
  have hbid := h.clear.determineDiffs _ _ (KeepsLevels.values hl .bid).1
    (KeepsLevels.values hr .bid).1 hc
  exact hbid.determineDiffs _ _ (KeepsLevels.values hl .ask).1 (KeepsLevels.values hr .ask).1 hs

/-! ## Levels behind a pointer -/

theorem Filed.storeLevel (l : PriceLevel) : (b.storeLevel l).Filed a := by
  unfold Book.storeLevel
  split
  · exact h
  · next s hs =>
    split
    · split
      · exact KeepsLevels.putLevel h (Filed.kept rfl (Side.book?_eq_some.mp hs))
      · exact h.congr rfl rfl
    · exact h.congr rfl rfl

theorem Filed.levelNewEntry (l : PriceLevel) (id : String) : (b.levelNewEntry l id).1.Filed a := by
  have hstored : ∀ l, ({ b with nextRef := b.nextRef + 1 }.storeLevel l).Filed a := by
    intro l
    have hnext : { b with nextRef := b.nextRef + 1 }.Filed a := h.congr rfl rfl
    exact hnext.storeLevel l
  unfold Book.levelNewEntry
  dsimp only
  split
  · exact (hstored _).congr rfl rfl
  · exact hstored _

theorem Filed.removeLevelEntry (l : PriceLevel) (ref : Ref) :
    (b.removeLevelEntry l ref).1.Filed a := by
  unfold Book.removeLevelEntry
  split
  · exact h
  · next e _ =>
    refine Filed.storeLevel ?_ _
    split
    · exact h.congr rfl rfl
    · exact h

end

end Filed

end Book

/-! ## Messages -/

namespace Listener

open Book

variable {a : Nat} {x : Listener}

section

variable (h : x.book.Filed a)

include h

theorem filed_dropEntry (l : PriceLevel) (ref : Ref) (plAction : Action) :
    (x.dropEntry l ref plAction).1.book.Filed a := by
  have hremoved := h.removeLevelEntry l ref
  unfold dropEntry
  dsimp only
  split
  · exact KeepsLevels.detachLevel hremoved _
  · exact hremoved

theorem filed_changeEntry (l : PriceLevel) (plAction entryAction : Action) (e : Entry)
    (newEntry : Bool) : (x.changeEntry l plAction entryAction e newEntry).1.book.Filed a := by
  unfold changeEntry
  dsimp only
  split
  · have hdropped := filed_dropEntry
      (x := { x with fields := noteSizes x.fields l e newEntry,
                     book :=
                       x.book.storeLevel (changedLevel (noteSizes x.fields l e newEntry) l e) })
      (h.storeLevel _) (changedLevel (noteSizes x.fields l e newEntry) l e) e.ref plAction
    exact hdropped.congr rfl rfl
  · exact (h.storeLevel _).congr rfl rfl

theorem filed_processEntry (l : PriceLevel) (plAction : Action) :
    (x.processEntry l plAction).1.book.Filed a := by
  unfold processEntry
  split
  · exact h
  next id _ =>
  split
  · exact h
  split
  · split
    · split <;> exact h
    · exact filed_changeEntry h l plAction .delete _ false
  · split
    · exact filed_changeEntry h l plAction x.fields.entryAction _ false
    · exact filed_changeEntry (x := { x with book := (x.book.levelNewEntry l id).1 })
        (h.levelNewEntry l id) _ plAction _ _ true

omit h in
theorem filed_processEntrySubMsgs (plAction : Action) (msgs : List EntryMsg) :
    ∀ {r : Listener × PriceLevel}, r.1.book.Filed a →
      (msgs.foldl (processEntrySubMsg plAction) r).1.book.Filed a := by
  induction msgs with
  | nil => exact fun h => h
  | cons msg msgs ih =>
    intro r h
    refine ih ?_
    exact filed_processEntry
      (x := { r.1 with fields := r.1.fields.processEntryMessage r.1.takesEntries msg }) h r.2
        plAction

omit h in
theorem filed_deleteShownEntries (es : List Entry) : ∀ {x : Listener} (l : PriceLevel),
    x.book.Filed a → (x.deleteShownEntries l es).1.book.Filed a := by
  induction es with
  | nil => exact fun _ h => h
  | cons e es ih => intro x l h; exact ih _ (h.removeLevelEntry _ e.ref)

def FiledAfter {α : Type} (a : Nat) (left : α → Listener) : Handled α → Prop
  | .ok r => (left r).book.Filed a
  | .error (.thrown x) => x.book.Filed a
  | .error .crash => True

omit h in
theorem FiledAfter.bind {α β : Type} {left : α → Listener} {left' : β → Listener} {r : Handled α}
    {f : α → Handled β} (h : FiledAfter a left r)
    (hf : ∀ r, (left r).book.Filed a → FiledAfter a left' (f r)) :
      FiledAfter a left' (r >>= f) := by
  cases r with
  | ok r => exact hf r h
  | error stop =>
    cases stop with
    | thrown x => exact h
    | crash => trivial

omit h in
theorem FiledAfter.foldlM {M : Type} {step : Listener → M → Handled Listener}
    (hstep : ∀ m x, x.book.Filed a → FiledAfter a id (step x m)) (ms : List M) :
    ∀ {x : Listener}, x.book.Filed a → FiledAfter a id (ms.foldlM step x) := by
  induction ms with
  | nil => exact fun h => h
  | cons m ms ih => intro x h; exact (hstep m x h).bind fun y hy => ih hy

theorem filed_processEntries (l : PriceLevel) (plAction : Action) :
    FiledAfter a Prod.fst (x.processEntries l plAction) := by
  have hone : ∀ f, (processEntry { x with fields := f } l plAction).1.book.Filed a := fun f =>
    filed_processEntry (x := { x with fields := f }) h l plAction
  unfold processEntries
  split
  · exact h
  split
  · dsimp only
    split
    · exact h
    · exact filed_deleteShownEntries _ l h
  split
  · split
    · exact filed_processEntrySubMsgs plAction _ h
    · trivial
  · split
    · exact hone _
    · exact filed_processEntrySubMsgs plAction _ h

theorem filed_processLevelPart1 : FiledAfter a Prod.fst x.processLevelPart1 := by
  unfold processLevelPart1
  split
  · exact h
  next s hs =>
  dsimp only
  split
  · split
    · exact h
    · exact Filed.storeLevel (KeepsLevels.detachLevel h _) _
  · have hside := Side.book?_eq_some.mp hs
    have hcreated : (x.book.findOrCreateLevel s x.fields.plPrice x.fields.plSide).1.Filed a := by
      rw [hside]; exact (KeepsLevels.findOrCreateLevel h s x.fields.plPrice fun hf => hf).1
    exact hcreated.storeLevel _

theorem filed_processLevelPart2 (l : PriceLevel) : (x.processLevelPart2 l).book.Filed a := by
  have hite : ∀ (c : Prop) [Decidable c] (y z : Listener), y.book.Filed a → z.book.Filed a →
      (if c then y else z).book.Filed a := by
    intro c _ y z hy hz
    split
    · exact hy
    · exact hz
  have hstored := h.storeLevel
  refine hite _ _ _ (KeepsLevels.detachLevel ?_ _) ?_
  · exact hite _ _ _ ((hstored _).congr rfl rfl) (hstored _)
  · exact hite _ _ _ ((hstored _).congr rfl rfl) (hstored _)

theorem filed_processLevel : FiledAfter a id x.processLevel := by
  refine (filed_processLevelPart1 h).bind fun r hr => ?_
  obtain ⟨y, l⟩ := r
  cases l with
  | none => exact hr
  | some l =>
    refine (filed_processEntries hr l y.fields.plAction).bind fun r hr => ?_
    exact filed_processLevelPart2 hr r.2

theorem filed_createDelta : FiledAfter a id x.createDelta := by
  have hsub : ∀ clear msg (x : Listener), x.book.Filed a →
      FiledAfter a id (processLevelSubMsg clear x msg) := by
    intro clear msg x h
    exact filed_processLevel h
  unfold createDelta
  split
  · exact h
  split
  · split
    · exact FiledAfter.foldlM (fun msg y hy => hsub true msg y hy) _ h
    · trivial
  · split
    · exact filed_processLevel h
    · exact FiledAfter.foldlM (fun msg y hy => hsub false msg y hy) _ h

theorem filed_processBookMessage (msg : BookMsg) (isRecap : Bool) :
    (x.processBookMessage msg isRecap).1.book.Filed a := by
  have hnames : ∀ (msg : BookMsg) {b : Book}, b.Filed a → (msg.foldl onBookName b).Filed a := by
    intro msg
    induction msg with
    | nil => exact fun h => h
    | cons f msg ih =>
      intro b h
      refine ih ?_
      unfold onBookName
      split
      · split
        · exact h.congr rfl rfl
        · exact h
      · split
        · exact h.congr rfl rfl
        · exact h
      · exact h
  have hcleared : ∀ (c : Prop) [Decidable c] (b : Book), b.Filed a →
      (if c then b.clear else b).Filed a := by
    intro c _ b h
    split
    · exact h.clear
    · exact h
  refine hcleared _ _ ?_
  exact (hnames msg h).congr rfl rfl

variable {y : Listener}

theorem filed_handleRecap {msg : BookMsg} (hs : x.handleRecap msg = some y) : y.book.Filed a := by
  have hdelta := filed_createDelta (filed_processBookMessage h msg true)
  unfold handleRecap at hs
  dsimp only at hs
  split at hs
  · next y hy =>
    rw [hy] at hdelta
    rwa [← some.inj hs]
  · next y hy =>
    rw [hy] at hdelta
    rwa [← some.inj hs]
  · cases hs

theorem filed_handleUpdate {msg : BookMsg} (hs : x.handleUpdate msg = some y) : y.book.Filed a := by
  have hbook := filed_processBookMessage h msg false
  have happlied : ∀ {z}, x.applyUpdate msg = some z → z.book.Filed a := by
    intro z hz
    unfold applyUpdate at hz
    split at hz
    · split at hz
      · next z' hmsg =>
        rw [hmsg] at hbook
        rwa [← some.inj hz]
      next z' hmsg =>
      rw [hmsg] at hbook
      have hdelta := filed_createDelta hbook
      unfold caught at hz
      split at hz
      · next w hw =>
        rw [hw] at hdelta
        rwa [← some.inj hz]
      · next w hw =>
        rw [hw] at hdelta
        rwa [← some.inj hz]
      · cases hz
    · rwa [← some.inj hz]
  obtain ⟨z, hz, rfl⟩ := map_eq_some_iff.mp hs
  split
  · unfold afterHandlers
    dsimp only
    split
    · exact happlied hz
    · exact (happlied hz).congr rfl rfl
  · exact happlied hz

end

end Listener

/-- **In every book that is reached the levels lie under their prices and sides.** -/
theorem keepsLevels_of_reached {b : Book} (h : Reached b) : b.Filed b.addr := by
  induction h with
  | new addr sourceOk check publish =>
    exact Book.Filed.self (LevelOp.keepsLevels_start false addr sourceOk check publish)
  | level _ _ hs ih ihbook =>
    refine Book.Filed.self (LevelOp.keepsLevels_step ih (fun book hb => ?_) nofun hs)
    exact ⟨_, _, ihbook book hb⟩
  | entry _ _ hs ih ihbook =>
    exact (ih.entryStep (fun book filter ho => ⟨_, ihbook book filter ho⟩) hs).self
  | reevaluate _ ih => exact ih.reevaluate.self
  | difference _ _ _ hs ih ihl ihr => exact (ih.setAsDeltaDifference ihl ihr hs).self
  | pointer _ hl hprice hside ih =>
    have hl' := ih.levels _ _ _ hl
    exact Book.Filed.self (Book.KeepsLevels.putLevel ih
      (Book.Filed.kept (hprice.trans hl'.price) (hside.trans hl'.side)))
  | market s l _ ih => exact ih.congr rfl rfl
  | names symbol partId _ ih => exact ih.congr rfl rfl
  | recap _ hs ih => exact (Listener.filed_handleRecap ih hs).self
  | update _ hs ih => exact (Listener.filed_handleUpdate ih hs).self

end Mamda
