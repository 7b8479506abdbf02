import OpenMama.Lib.Runs
import OpenMama.Mamda.ManagedMessages
import OpenMama.Mamda.SequenceNumbers

/-!
# The entry manager over whole runs

After every message the manager is to lead to the entries of the book and to no
others, each entry is to sit on the level that was last named for it, and no level
is to have an id twice (`Managed.Agrees`).  `title` says which names count as names
for an entry: those of its id, or those of its key where one id stands for entries
at several prices.

A listener with a manager does not move an entry whose id comes back on another
level, and takes one that is deleted there out of the manager and leaves it in the
book; and a level that leaves the book takes its entries with it, which stay in the
manager until they are cleaned up.  `agrees_of_meets` shows that a run whose
messages do neither agrees.
-/

namespace Mamda

open Mama Lib List Option

namespace Managed

variable {T : Type} [DecidableEq T] {title : String → BookSide × Price → T} {late : Prop}
  {x y : Managed}

/-! ## What is to hold -/

structure Agrees (title : String → BookSide × Price → T) (x : Managed) : Prop where
  /-- A key leads to an entry just if the book has that entry, under that key. -/
  managed : ∀ k r, x.manager.entries k = some r ↔
    ∃ q id, x.book.Holds q r id ∧ x.manager.keyAt id q = k
  /-- An entry is on the level that was last named for it. -/
  placed : ∀ q r id, x.book.Holds q r id → lastNamed title x.named (title id q) = some q
  distinct : ∀ s p l, x.book.findLevel s p = some l → (l.entryList.map Entry.id).Nodup

theorem Registered.agrees (h : Registered title False x) : x.Agrees title where
  managed k r := h.sound.index_iff
  placed q r id hitem := h.placed q r id hitem
  distinct s p l hl := by
    have hrefs := (h.fits s p l hl).refs
    rw [nodup_map_iff_inj_on hrefs.of_map]
    intro e he e' he' hid
    have hholds : ∀ a ∈ l.entryList, x.book.Holds (s, p) a.ref a.id := by
      intro a ha; exact (Book.holds_of_find hl).mp (PriceLevel.mem_roster.mpr ⟨a, ha, rfl, rfl⟩)
    have href : e.ref = e'.ref := h.sound.eq_of_name (hholds e he) (hid ▸ hholds e' he')
    exact inj_on_of_nodup_map hrefs he he' href

/-! ## States that a message leaves -/

section

variable (h : Registered title late x)

include h

theorem Registered.congr (hlevels : y.book.levels = x.book.levels)
    (hdetached : y.book.detachedLevels = x.book.detachedLevels)
    (hentries : y.book.detachedEntries = x.book.detachedEntries)
    (hnext : y.book.nextRef = x.book.nextRef) (haddr : y.book.addr = x.book.addr)
    (hmanager : y.manager = x.manager) (hnamed : y.named = x.named)
    (hhave : y.listener.haveEntries = x.listener.haveEntries) : Registered title late y := by
  have hfind : y.book.findLevel = x.book.findLevel := by
    unfold Book.findLevel
    rw [hlevels]
  have hholds : y.book.Holds = x.book.Holds := by
    unfold Book.Holds
    rw [hfind]
  have haside : y.book.Aside = x.book.Aside := by
    unfold Book.Aside
    rw [hdetached]
  refine ⟨?_, ⟨?_, ?_, ?_, ?_⟩, ?_, ?_, ?_, ?_, ?_⟩
  · intro s p l hl
    rw [hfind] at hl
    exact (h.fits s p l hl).later haddr hnext.ge
  · rw [hfind, hnext]; exact h.apart.below
  · rw [hdetached, hnext]; exact h.apart.detachedBelow
  · rw [hfind, hdetached]; exact h.apart.detached
  · rw [hfind]; exact h.apart.places
  · rw [hholds, haside, hmanager]; exact h.sound
  · rw [hholds, hnamed]; exact h.placed
  · rw [hentries, hmanager, hnext]; exact h.gone
  · rw [haside, hnext]; exact h.asideBelow
  · rw [hhave, hholds]; exact h.new

theorem Registered.kept (hbook : y.book = x.book)
    (hmanager : y.manager = x.manager) (hnamed : y.named = x.named)
    (hhave : y.listener.haveEntries = x.listener.haveEntries) : Registered title late y :=
  h.congr (congrArg Book.levels hbook) (congrArg Book.detachedLevels hbook)
    (congrArg Book.detachedEntries hbook) (congrArg Book.nextRef hbook) (congrArg Book.addr hbook)
    hmanager hnamed hhave

theorem Registered.mono {late' : Prop} (hlate : late → late') : Registered title late' x :=
  ⟨h.fits, h.apart, h.sound.mono hlate, h.placed, h.gone, h.asideBelow, h.new⟩

omit h in
theorem registered_empty (hlevels : y.book.levels = ⟨.empty, .empty⟩)
    (hdetached : y.book.detachedLevels = []) (hentries : y.book.detachedEntries = [])
    (hindex : y.manager.entries = fun _ => none) (hlabel : y.manager.label = fun _ => none) :
    Registered title late y := by
  have hfind : ∀ s p l, y.book.findLevel s p ≠ some l := by
    intro s p l hl
    unfold Book.findLevel at hl
    rw [hlevels, Sides.get_mk] at hl
    cases hl
  have hholds : ∀ q r id, ¬ y.book.Holds q r id := by
    rintro q r id ⟨l, hl, -⟩; exact hfind _ _ l hl
  have haside : ∀ r, ¬ y.book.Aside r := by
    rintro r ⟨l, hl, -⟩
    rw [hdetached] at hl
    cases hl
  refine ⟨fun s p l hl => absurd hl (hfind s p l), ⟨?_, ?_, ?_, ?_⟩, ?_, ?_, ?_, ?_, ?_⟩
  · exact fun s p l hl => absurd hl (hfind s p l)
  · rw [hdetached]; exact fun l hl => absurd hl not_mem_nil
  · exact fun s p l hl => absurd hl (hfind s p l)
  · exact fun s p l _ _ _ hl => absurd hl (hfind s p l)
  · refine (Register.Sound.empty _ y.book.Aside late).congr (fun q r id => ?_) hindex hlabel
      fun _ => Iff.rfl
    exact iff_false_intro (hholds q r id)
  · exact fun q r id hitem => absurd hitem (hholds q r id)
  · rw [hentries]; exact fun e he => absurd he not_mem_nil
  · exact fun r hr => absurd hr (haside r)
  · exact fun _ q r id => hholds q r id

omit h in
theorem Registered.aside_mem (_ : Registered title late x) {r : Ref} (hr : x.book.Aside r) :
    r ∈ x.book.detached.map Entry.ref := by
  obtain ⟨l, hl, id, hmem⟩ := hr
  obtain ⟨e, he, rfl, -⟩ := PriceLevel.mem_roster.mp hmem
  refine mem_map_of_mem (mem_append_left _ ?_)
  exact mem_flatMap.mpr ⟨l, hl, he⟩

theorem Registered.not_detached :
    ∀ r ∈ x.book.detached.map Entry.ref, ∀ q id, ¬ x.book.Holds q r id := by
  intro r hr q id hitem
  obtain ⟨e, he, rfl⟩ := mem_map.mp hr
  rcases mem_append.mp he with he | he
  · obtain ⟨l, hl, he⟩ := mem_flatMap.mp he
    refine h.sound.apart hitem ⟨l, hl, e.id, ?_⟩
    exact PriceLevel.mem_roster.mpr ⟨e, he, rfl, rfl⟩
  · have hlabel := h.sound.inverse.mp (h.sound.kept hitem)
    have hnone : x.manager.label e.ref = none := by
      rw [EntryManager.label, (h.gone e he).1, if_neg Bool.false_ne_true]
    rw [show (x.manager.register x.book.Holds).label = x.manager.label from rfl, hnone] at hlabel
    cases hlabel

theorem Registered.sweep (hbook : y.book = x.book.cleanupDetached)
    (hmanager : y.manager = x.sweptManager) (hnamed : y.named = x.named)
    (hhave : y.listener.haveEntries = x.listener.haveEntries) : Registered title False y := by
  have hfind : y.book.findLevel = x.book.findLevel := by
    rw [hbook]; rfl
  have hholds : y.book.Holds = x.book.Holds := by
    rw [hbook]; rfl
  have hkey : y.manager.keyAt = x.manager.keyAt := by
    rw [hmanager]; exact EntryManager.keyAt_destroyAll _ _
  have hno : ∀ r, ¬ y.book.Aside r := by
    rintro r ⟨l, hl, -⟩
    rw [hbook] at hl
    cases hl
  refine ⟨?_, ⟨?_, ?_, ?_, ?_⟩, ?_, ?_, ?_, ?_, ?_⟩
  · intro s p l hl
    rw [hfind] at hl
    rw [hbook]
    exact (h.fits s p l hl).later rfl (le_refl _)
  · rw [hbook]; exact h.apart.below
  · rw [hbook]; exact fun x hx => absurd hx not_mem_nil
  · intro s p l _ l' hl'
    rw [hbook] at hl'
    cases hl'
  · rw [hfind]; exact h.apart.places
  · rw [hkey, hholds, hmanager]
    rw [sweptManager, EntryManager.register_destroyAll]
    refine (h.sound.sweep h.not_detached fun r hr => h.aside_mem hr).shrink ?_
    exact fun r hr => absurd hr (hno r)
  · rw [hholds, hnamed]; exact h.placed
  · rw [hbook]; exact fun x hx => absurd hx not_mem_nil
  · exact fun r hr => absurd hr (hno r)
  · rw [hhave, hholds]; exact h.new

theorem Registered.cleared :
    x.clearedManager.entries = (fun _ => none) ∧ x.clearedManager.label = fun _ => none := by
  refine ⟨rfl, ?_⟩
  have hall := h.sound.clear ((x.book.detached ++ x.book.attached).map Entry.ref)
      (fun q r id hitem => ?_) fun r hr => ?_
  · rwa [← EntryManager.register_destroyAll] at hall
  · obtain ⟨l, hl, hmem⟩ := hitem
    obtain ⟨e, he, rfl, -⟩ := PriceLevel.mem_roster.mp hmem
    refine mem_map_of_mem (mem_append_right _ (mem_flatMap.mpr ⟨l, ?_, he⟩))
    have hvalue : l ∈ (x.book.levels.get q.1).values :=
      mem_map.mpr ⟨(q.2, l), SortedMap.mem_toList.mpr hl, rfl⟩
    refine mem_append_left _ (mem_append_left _ (mem_append.mpr ?_))
    cases hq : q.1 with
    | bid => rw [hq] at hvalue; exact .inl hvalue
    | ask => rw [hq] at hvalue; exact .inr hvalue
  · rw [map_append]; exact mem_append_left _ (h.aside_mem hr)

/-! ## Messages -/

omit h in
theorem onBookName_frame (b : Book) (f : BookField) : (Listener.onBookName b f).levels = b.levels ∧
    (Listener.onBookName b f).detachedLevels = b.detachedLevels ∧
    (Listener.onBookName b f).detachedEntries = b.detachedEntries ∧
    (Listener.onBookName b f).nextRef = b.nextRef ∧ (Listener.onBookName b f).addr = b.addr := by
  cases f with
  | symbol s =>
    unfold Listener.onBookName
    dsimp only
    split <;> exact ⟨rfl, rfl, rfl, rfl, rfl⟩
  | partId s =>
    unfold Listener.onBookName
    dsimp only
    split <;> exact ⟨rfl, rfl, rfl, rfl, rfl⟩
  | _ => exact ⟨rfl, rfl, rfl, rfl, rfl⟩

omit h in
theorem foldl_onBookName (msg : BookMsg) (b : Book) :
    (msg.foldl Listener.onBookName b).levels = b.levels ∧
      (msg.foldl Listener.onBookName b).detachedLevels = b.detachedLevels ∧
      (msg.foldl Listener.onBookName b).detachedEntries = b.detachedEntries ∧
      (msg.foldl Listener.onBookName b).nextRef = b.nextRef ∧
      (msg.foldl Listener.onBookName b).addr = b.addr := by
  induction msg generalizing b with
  | nil => exact ⟨rfl, rfl, rfl, rfl, rfl⟩
  | cons f msg ih =>
    obtain ⟨h₁, h₂, h₃, h₄, h₅⟩ := ih (Listener.onBookName b f)
    obtain ⟨g₁, g₂, g₃, g₄, g₅⟩ := onBookName_frame b f
    exact ⟨h₁.trans g₁, h₂.trans g₂, h₃.trans g₃, h₄.trans g₄, h₅.trans g₅⟩

theorem Registered.processBookMessage (msg : BookMsg)
    (isRecap : Bool) : Registered title late (x.processBookMessage msg isRecap) := by
  have hlistener := x.session.processBookMessage_listener msg isRecap
  unfold Managed.processBookMessage
  dsimp only
  split
  · next hfirst =>
    have hclear : (x.session.processBookMessage msg isRecap).1.listener.book =
        Book.clear { msg.foldl Listener.onBookName x.book with
          bookTime := (x.session.processBookMessage msg isRecap).1.listener.book.bookTime } := by
      rw [fields, listener, hlistener] at hfirst
      rw [hlistener]
      unfold Listener.processBookMessage at hfirst ⊢
      dsimp only at hfirst ⊢
      rw [if_pos hfirst]
      rfl
    obtain ⟨hindex, hlabel⟩ := h.cleared
    refine registered_empty ?_ ?_ ?_ hindex hlabel
    · exact congrArg Book.levels hclear
    · exact congrArg Book.detachedLevels hclear
    · exact congrArg Book.detachedEntries hclear
  next hfirst =>
  have hkeep : (x.session.processBookMessage msg isRecap).1.listener.book =
      { msg.foldl Listener.onBookName x.book with
        bookTime := (x.session.processBookMessage msg isRecap).1.listener.book.bookTime } := by
    rw [fields, listener, hlistener] at hfirst
    rw [hlistener]
    unfold Listener.processBookMessage at hfirst ⊢
    dsimp only at hfirst ⊢
    rw [if_neg hfirst]
    rfl
  obtain ⟨h₁, h₂, h₃, h₄, h₅⟩ := foldl_onBookName msg x.book
  have hhave := congrArg Listener.haveEntries hlistener
  refine h.congr ?_ ?_ ?_ ?_ ?_ rfl rfl hhave
  · exact (congrArg Book.levels hkeep).trans h₁
  · exact (congrArg Book.detachedLevels hkeep).trans h₂
  · exact (congrArg Book.detachedEntries hkeep).trans h₃
  · exact (congrArg Book.nextRef hkeep).trans h₄
  · exact (congrArg Book.addr hkeep).trans h₅

theorem Registered.handleClear (msg : BookMsg) : Registered title late (x.handleClear msg) := by
  obtain ⟨hindex, hlabel⟩ := (h.processBookMessage msg true).cleared
  exact registered_empty rfl rfl rfl hindex hlabel

end

section

variable (h : Registered title False x)

include h

theorem Registered.handleRecap {msg : BookMsg}
    (hm : DeltaMeets title false (x.processBookMessage msg true))
    (hy : x.handleRecap msg = some y) : Registered title False y := by
  have hread : Registered title (false) (x.processBookMessage msg true) :=
    (h.processBookMessage msg true).mono False.elim
  unfold Managed.handleRecap at hy
  have hdelta := fun z hz => (hread.createDelta hm (y := z) hz).mono Bool.false_ne_true
  cases hc : (x.processBookMessage msg true).createDelta with
  | ok z =>
    rw [hc] at hy hdelta
    have hz := hdelta z rfl
    dsimp only at hy
    split at hy
    · rw [← some.inj hy]
      have hsame := Session.setQuality_ok_listener
        { z.session with
          listener := { z.listener with
            gotInitial := true
            isConsistent := true
            deltas := { z.listener.deltas with
              complexDelta := z.listener.deltas.complexDelta.clear } } }
      have hbook := congrArg Listener.book hsame
      have hhave := congrArg Listener.haveEntries hsame
      exact hz.kept hbook rfl rfl hhave
    · rw [← some.inj hy]; exact hz.kept rfl rfl rfl rfl
  | error stop =>
    cases stop with
    | crash => rw [hc] at hy; cases hy
    | thrown z =>
      rw [hc] at hy hdelta
      rw [← some.inj hy]
      exact (hdelta z rfl).kept rfl rfl rfl rfl

omit h in
theorem Registered.forwardUpdate (h : Registered title (x.cleansUp) x) :
    Registered title False x.forwardUpdate := by
  have hhave : x.forwardUpdate.listener.haveEntries = x.listener.haveEntries := by
    unfold Managed.forwardUpdate listener Session.forwardUpdate Session.invokeDeltaHandlers
    dsimp only
    (repeat' split) <;> rfl
  have hbook : x.forwardUpdate.book = if x.cleansUp then x.book.cleanupDetached else x.book := by
    unfold cleansUp Managed.forwardUpdate book listener Session.forwardUpdate
      Session.invokeDeltaHandlers Listener.afterHandlers
    dsimp only
    cases hforward : x.session.hasHandlers &&
        (x.session.updateInconsistentBook || x.session.listener.isConsistent) with
    | false => rfl
    | true =>
      cases hconflate : x.session.listener.deltas.complexDelta.conflateDeltas &&
          !x.session.listener.deltas.complexDelta.sendImmediately with
      | true => cases x.session.conflationTimer <;> rfl
      | false =>
        by_cases hcount : x.session.listener.deltas.currentDeltaCount = 0
        · rw [hcount]; rfl
        · have hne : (x.session.listener.deltas.currentDeltaCount != 0) = true :=
            bne_iff_ne.mpr hcount
          rw [hne, if_neg hcount]
          cases x.session.listener.book.generateDeltas <;> rfl
  cases hc : x.cleansUp with
  | true =>
    rw [hc] at hbook
    refine h.sweep hbook ?_ rfl hhave
    rw [Managed.forwardUpdate, hc, if_pos rfl]
  | false =>
    rw [hc] at hbook
    rw [hc] at h
    refine (h.mono Bool.false_ne_true).kept hbook ?_ rfl hhave
    rw [Managed.forwardUpdate, hc, if_neg Bool.false_ne_true]

theorem Registered.handleUpdate {msg : BookMsg}
    (hm : x.listener.gotInitial → (x.listener.processBookMessage msg false).2 = false →
      DeltaMeets title (x.processBookMessage msg false).endsInCleanup
        (x.processBookMessage msg false))
    (hy : x.handleUpdate msg = some y) : Registered title False y := by
  unfold Managed.handleUpdate at hy
  have hread := h.processBookMessage msg false
  split at hy
  · next hinit =>
    split at hy
    · rwa [← some.inj hy]
    next hignored =>
    obtain ⟨z, hz, rfl⟩ := map_eq_some_iff.mp hy
    have hcleans : (x.processBookMessage msg false).endsInCleanup = z.cleansUp := by
      rw [endsInCleanup, hz]; rfl
    have hmeets := hm hinit (Bool.eq_false_of_not_eq_true hignored)
    rw [hcleans] at hmeets
    exact ((hread.mono False.elim).createDelta hmeets hz).forwardUpdate
  · rwa [← some.inj hy]

/-! ## Quality changes and timers -/

omit h in
theorem setQuality_cases (x : Managed) (quality : Quality) :
    ((x.setQuality quality).listener = x.listener ∧ (x.setQuality quality).manager = x.manager) ∨
      ((x.setQuality quality).book = x.book.clear ∧
        (x.setQuality quality).manager = x.clearedManager) := by
  unfold Managed.setQuality book listener Session.setQuality
  by_cases hsame : x.session.quality = quality
  · left
    rw [if_pos hsame, if_neg fun hall => hall.1 hsame]
    exact ⟨rfl, rfl⟩
  rw [if_neg hsame]
  cases hclear : x.session.clearStaleBook with
  | false =>
    left
    cases quality <;> exact ⟨rfl, if_neg fun hall => Bool.false_ne_true hall.2.2.2⟩
  | true =>
    cases quality with
    | ok => exact .inl ⟨rfl, if_neg fun hall => hall.2.1 rfl⟩
    | duplicate => exact .inl ⟨rfl, if_neg fun hall => hall.2.2.1 rfl⟩
    | _ => exact .inr ⟨rfl, if_pos ⟨hsame, nofun, nofun, rfl⟩⟩

omit h in
theorem Registered.setQuality (h : Registered title late x) (quality : Quality) :
    Registered title late (x.setQuality quality) := by
  rcases x.setQuality_cases quality with ⟨hlistener, hmanager⟩ | ⟨hbook, hmanager⟩
  · have hbook := congrArg Listener.book hlistener
    have hhave := congrArg Listener.haveEntries hlistener
    exact h.kept hbook hmanager rfl hhave
  · obtain ⟨hindex, hlabel⟩ := h.cleared
    rw [← hmanager] at hindex hlabel
    refine registered_empty ?_ ?_ ?_ hindex hlabel
    · exact congrArg Book.levels hbook
    · exact congrArg Book.detachedLevels hbook
    · exact congrArg Book.detachedEntries hbook

theorem Registered.onTimer : Registered title False x.onTimer := by
  have hhave : x.onTimer.listener.haveEntries = x.listener.haveEntries := by
    unfold Managed.onTimer listener Session.onTimer Session.invokeDeltaHandlers
    dsimp only
    (repeat' split) <;> rfl
  by_cases hcount : x.session.listener.deltas.currentDeltaCount = 0
  · refine h.kept ?_ ?_ rfl hhave
    · unfold Managed.onTimer book listener Session.onTimer
      dsimp only
      rw [if_pos hcount]
    · unfold Managed.onTimer; exact if_pos hcount
  refine h.sweep ?_ ?_ rfl hhave
  · unfold Managed.onTimer book listener Session.onTimer Session.invokeDeltaHandlers
    dsimp only
    rw [if_neg hcount]
    split
    · unfold Listener.afterHandlers
      split <;> rfl
    · rfl
  · unfold Managed.onTimer; exact if_neg hcount

/-! ## Runs -/

theorem Registered.step {e : SessionEvent} (hm : Meets title x e)
    (hy : x.step e = some y) : Registered title False y := by
  cases e with
  | unreadable msgType =>
    rw [← some.inj hy]
    unfold Session.onUnreadable Session.throwUnread
    split
    · exact h.kept rfl rfl rfl rfl
    · exact h
  | quality quality => rw [← some.inj hy]; exact h.setQuality quality
  | timer =>
    rw [← some.inj hy]
    split
    · exact h.onTimer
    · exact h
  | msg msgType msg =>
    cases msgType with
    | bookUpdate =>
      unfold Managed.step Managed.onMsg at hy
      dsimp only at hy
      split at hy
      · rwa [← some.inj hy]
      · next hquality =>
        refine h.handleUpdate (hm ?_) hy; rwa [not_and_or, not_not, Bool.not_eq_false] at hquality
    | bookClear => rw [← some.inj hy]; exact h.handleClear msg
    | bookInitial => exact h.handleRecap hm hy
    | bookRecap => exact h.handleRecap hm hy
    | bookSnapshot => exact h.handleRecap hm hy
    | other => rwa [← some.inj hy]

end

theorem registered_new (session : Session) (manager : EntryManager) (check publish : Bool) :
    Registered title False (new session manager check publish) := by
  cases publish <;> exact registered_empty rfl rfl rfl rfl rfl

/-- **The manager agrees with the book** in every run whose messages leave no entry on another
level than they name and none on a level that leaves the book. -/
theorem agrees_of_meets (title : String → BookSide × Price → T) (session : Session)
    (manager : EntryManager) (check publish : Bool)
    (h : Runs step (Meets title) (new session manager check publish) x) : x.Agrees title := by
  have hreg := h.invariant (P := Registered title False)
    (registered_new session manager check publish) fun _ _ _ hs hm hy => hs.step hm hy
  exact hreg.agrees

/-! ## An id on two levels -/

def byId : EntryManager where
  uniqueEntryIds := true
  uniqueId id _ _ := id
  sourceDerivative := none
  entries _ := none
  uniqueIds _ := ""
  managed _ := false

def oneEntry (seqNum : Nat) (price : Price) (id : String) : SessionEvent :=
  .msg .bookUpdate [.msgSeqNum seqNum, .level (.plPrice price), .level (.plSide .bid),
    .level (.plAction .add), .level (.entry (.entryId id)), .level (.entry (.entryAction .add)),
    .level (.entry (.entrySize 5))]

/-- Two entries are added and the manager has them both. -/
theorem agrees_two_entries : ∃ y,
    Runs step (Meets fun id _ => id) (new plainSession byId false false) y ∧
      y.manager.entries "A" ≠ none ∧ y.manager.entries "B" ≠ none ∧ y.Agrees fun id _ => id := by
  have hrun : ([.msg .bookRecap (emptyRecap 1), oneEntry 2 10 "A", oneEntry 3 11 "B"].foldlM
      (fun s e => if Meets (fun id _ => id) s e then step s e else none)
      (new plainSession byId false false)).map
        (fun y => (y.manager.entries "A").isSome && (y.manager.entries "B").isSome) =
          some true := by
    decide +kernel
  obtain ⟨y, hy, hboth⟩ := map_eq_some_iff.mp hrun
  rw [Bool.and_eq_true] at hboth
  have hruns := Runs.init.checked _ hy
  exact ⟨y, hruns, isSome_iff_ne_none.mp hboth.1, isSome_iff_ne_none.mp hboth.2,
    agrees_of_meets _ plainSession byId false false hruns⟩

/-- The entry at 10 is named at 11 and stays at 10. -/
theorem not_agrees : ¬ ∀ y, Reachable step (new plainSession byId false false) y →
    y.Agrees fun id _ => id := by
  intro hall
  have hrun : ([.msg .bookRecap (emptyRecap 1), oneEntry 2 10 "A", oneEntry 3 11 "A"].foldlM step
      (new plainSession byId false false)).map
        (fun y => (y.book.placed.map fun t => (t.1, t.2.2),
          lastNamed (fun id _ => id) y.named "A")) =
      some ([((.bid, 10), "A")], some (.bid, 11)) := by decide +kernel
  obtain ⟨y, hy, hboth⟩ := map_eq_some_iff.mp hrun
  obtain ⟨hplaced, hnamed⟩ := Prod.mk.inj hboth
  have hagrees := hall y (Runs.init.steps (fun _ _ _ => trivial) hy)
  have hmem : ((.bid, 10), "A") ∈ y.book.placed.map fun t => (t.1, t.2.2) := by
    rw [hplaced]; exact mem_singleton.mpr rfl
  obtain ⟨⟨q, r, id⟩, ht, heq⟩ := mem_map.mp hmem
  obtain ⟨rfl, rfl⟩ := Prod.mk.inj heq
  have hlast := hagrees.placed _ r _ (Book.mem_placed.mp ht)
  rw [hnamed] at hlast
  cases hlast

end Managed

end Mamda
