import OpenMama.Mamda.ManagedEntries

/-!
# Levels and messages through the manager

The condition on a level is that of its entries, one after the other as the
listener comes to them, and, for a level that is deleted, that no entry stays on
it: the message deletes each or the book shows each, unless the message ends with
a cleanup of what is detached.  A message meets it level by level.

Between levels the state of the manager and the book is `Registered`; one level
keeps it (`Registered.processLevel`), and so does a message that meets the
condition (`Registered.createDelta`).
-/

namespace Mamda

open Mama Lib List Option

namespace Managed

variable {T : Type} [DecidableEq T]

/-! ## Conditions -/

/-- The fields as they are when an entry submessage has been read. -/
def reads (x : Managed) (msg : EntryMsg) : Managed :=
  x.withFields (x.fields.processEntryMessage x.listener.takesEntries msg)

/-- The entries that a level message attaches, a flat one being read already. -/
def attachedEntries (x : Managed) : List EntryMsg :=
  match x.fields.entryVector with
  | some v => v.take x.fields.plNumAttach
  | none => if x.fields.entries = [] ∧ x.fields.entryId ≠ none then [[]] else x.fields.entries

def EntriesMeet (title : String → BookSide × Price → T) (cleans : Bool) (q : BookSide × Price)
    (plAction : Action) : Managed × PriceLevel → List EntryMsg → Prop
  | _, [] => True
  | r, msg :: msgs =>
    EntryMeets title cleans q (r.1.reads msg) r.2 ∧
      EntriesMeet title cleans q plAction (processEntrySubMsg plAction r msg) msgs

instance (title : String → BookSide × Price → T) (cleans : Bool) (q : BookSide × Price)
    (plAction : Action) : ∀ r msgs, Decidable (EntriesMeet title cleans q plAction r msgs)
  | _, [] => .isTrue trivial
  | r, msg :: msgs =>
    have :
        Decidable (EntriesMeet title cleans q plAction (processEntrySubMsg plAction r msg) msgs) :=
      instDecidableEntriesMeet title cleans q plAction _ msgs
    inferInstanceAs (Decidable (_ ∧ _))

/-- One of the entries, when it is read, is a DELETE of that id. -/
def Deletes (plAction : Action) (id : String) : Managed × PriceLevel → List EntryMsg → Prop
  | _, [] => False
  | r, msg :: msgs =>
    ((r.1.reads msg).fields.entryId = some id ∧ id ≠ "" ∧
        (r.1.reads msg).fields.entryAction = .delete) ∨
      Deletes plAction id (processEntrySubMsg plAction r msg) msgs

instance (plAction : Action) (id : String) : ∀ r msgs, Decidable (Deletes plAction id r msgs)
  | _, [] => .isFalse not_false
  | r, msg :: msgs =>
    have : Decidable (Deletes plAction id (processEntrySubMsg plAction r msg) msgs) :=
      instDecidableDeletes plAction id _ msgs
    inferInstanceAs (Decidable (_ ∨ _))

/-- What the entries of a level message are worked on with: the place of the level, the listener
and the level. -/
def levelInHand (x : Managed) : Option ((BookSide × Price) × Managed × PriceLevel) :=
  match x.fields.plSide.book?, x.processLevelPart1 with
  | some s, .ok (y, some l) => some ((s, x.fields.plPrice), y, l)
  | _, _ => none

/-- No entry stays on a level that the message deletes. -/
def Empties (plAction : Action) (y : Managed) (l : PriceLevel) : Prop :=
  if y.listener.levelsOnly then l.entryList = []
  else if y.fields.plNumAttach = 0 then ∀ e ∈ l.entryList, y.book.counts l e
  else ∀ e ∈ l.entryList, Deletes plAction e.id (y, l) y.attachedEntries

instance (plAction : Action) (y : Managed) (l : PriceLevel) :
    Decidable (Empties plAction y l) := by
  unfold Empties
  infer_instance

/-- The condition on the level that the fields describe. -/
def LevelMeets (title : String → BookSide × Price → T) (cleans : Bool) (x : Managed) : Prop :=
  ∀ r ∈ x.levelInHand,
    (r.2.1.listener.levelsOnly = false → r.2.1.fields.plNumAttach ≠ 0 →
      EntriesMeet title cleans r.1 r.2.1.fields.plAction r.2 r.2.1.attachedEntries) ∧
    (x.fields.plAction = .delete →
      cleans ∨ Empties r.2.1.fields.plAction r.2.1 r.2.2)

instance (title : String → BookSide × Price → T) (cleans : Bool) (x : Managed) :
    Decidable (LevelMeets title cleans x) := by
  unfold LevelMeets
  infer_instance

/-- The fields as they are when a level submessage has been read. -/
def readsLevel (clear : Bool) (x : Managed) (msg : LevelMsg) : Managed :=
  let f := if clear then x.fields.clearPriceLevel else x.fields
  x.withFields (f.processLevelMessage x.listener.takesEntries msg)

def LevelsMeet (title : String → BookSide × Price → T) (cleans clear : Bool) :
    Managed → List LevelMsg → Prop
  | _, [] => True
  | x, msg :: msgs =>
    LevelMeets title cleans (x.readsLevel clear msg) ∧
      ∀ y ∈ (processLevelSubMsg clear x msg).toOption, LevelsMeet title cleans clear y msgs

instance (title : String → BookSide × Price → T) (cleans clear : Bool) :
    ∀ x msgs, Decidable (LevelsMeet title cleans clear x msgs)
  | _, [] => .isTrue trivial
  | _, _ :: msgs =>
    have : ∀ y, Decidable (LevelsMeet title cleans clear y msgs) :=
      fun y => instDecidableLevelsMeet title cleans clear y msgs
    inferInstanceAs (Decidable (_ ∧ _))

/-- The fields of a message without level submessages, with the time of the book for one that is
missing. -/
def flatLevel (x : Managed) : Managed :=
  let f := x.fields
  x.withFields (if f.hasPlTime then f else { f with plTime := f.bookTime })

def DeltaMeets (title : String → BookSide × Price → T) (cleans : Bool) (x : Managed) : Prop :=
  x.fields.numLevels ≠ 0 →
    (∀ v ∈ x.fields.priceLevelVector, LevelsMeet title cleans true x (v.take x.fields.numLevels)) ∧
    (x.fields.priceLevelVector = none →
      if x.fields.priceLevels = [] then LevelMeets title cleans x.flatLevel
      else LevelsMeet title cleans false x x.fields.priceLevels)

instance (title : String → BookSide × Price → T) (cleans : Bool) (x : Managed) :
    Decidable (DeltaMeets title cleans x) := by
  unfold DeltaMeets
  infer_instance

/-- Whether the update, handled as far as its end, is forwarded to the handlers and cleans up. -/
def endsInCleanup (x : Managed) : Bool := (caught x.createDelta).any cleansUp

/-- The condition on an event: that of its message, if that is handled. -/
def Meets (title : String → BookSide × Price → T) (x : Managed) : SessionEvent → Prop
  | .msg .bookUpdate msg =>
    (x.session.quality = .ok ∨ x.session.updateStaleBook) → x.listener.gotInitial →
      (x.listener.processBookMessage msg false).2 = false →
        let y := x.processBookMessage msg false
        DeltaMeets title y.endsInCleanup y
  | .msg .bookInitial msg => DeltaMeets title false (x.processBookMessage msg true)
  | .msg .bookRecap msg => DeltaMeets title false (x.processBookMessage msg true)
  | .msg .bookSnapshot msg => DeltaMeets title false (x.processBookMessage msg true)
  | _ => True

instance (title : String → BookSide × Price → T) (x : Managed) : ∀ e, Decidable (Meets title x e)
  | .msg .bookUpdate _ => inferInstanceAs (Decidable (_ → _ → _ → DeltaMeets _ _ _))
  | .msg .bookInitial _ => inferInstanceAs (Decidable (DeltaMeets _ _ _))
  | .msg .bookRecap _ => inferInstanceAs (Decidable (DeltaMeets _ _ _))
  | .msg .bookSnapshot _ => inferInstanceAs (Decidable (DeltaMeets _ _ _))
  | .msg .bookClear _ => .isTrue trivial
  | .msg .other _ => .isTrue trivial
  | .unreadable _ => .isTrue trivial
  | .quality _ => .isTrue trivial
  | .timer => .isTrue trivial

/-! ## Between levels -/

/-- The manager agrees with the book; where the message cleans up (`late`) entries may be aside. -/
structure Registered (title : String → BookSide × Price → T) (late : Prop) (x : Managed) :
    Prop where
  fits : x.book.Fits
  apart : x.book.Apart
  sound : (x.manager.register x.book.Holds).Sound x.manager.keyAt x.book.Aside late
  placed : (x.manager.register x.book.Holds).Placed title (lastNamed title x.named)
  gone : ∀ e ∈ x.book.detachedEntries,
    x.manager.managed e.ref = false ∧ e.ref.index < x.book.nextRef
  asideBelow : ∀ r, x.book.Aside r → r.index < x.book.nextRef
  new : x.listener.haveEntries = false → ∀ q r id, ¬ x.book.Holds q r id

section Registered

variable {title : String → BookSide × Price → T} {late : Prop} {b₀ : Book} {s : BookSide}
  {p : Price}
  {attached : Bool} {x : Managed} {l : PriceLevel}

section

variable (h : Registered title late x)

include h

theorem Registered.below {q : BookSide × Price} {r : Ref} {id : String}
    (hr : x.book.Holds q r id) : r.index < x.book.nextRef := by
  obtain ⟨l, hl, hmem⟩ := hr
  obtain ⟨e, he, rfl, -⟩ := PriceLevel.mem_roster.mp hmem
  exact (h.fits _ _ _ hl).below e he

theorem Registered.withFields (f : BookMsgFields) : Registered title late (x.withFields f) :=
  ⟨h.fits, h.apart, h.sound, h.placed, h.gone, h.asideBelow, h.new⟩

theorem Registered.takesUp {y : Listener}
    (hy : x.listener.TakesUp y s attached l) (hs : x.fields.plSide = s.side) :
    Works title late x.book s x.fields.plPrice attached (x.withListener y) l := by
  have hholds : x.book.HoldsBut (s, x.fields.plPrice) l = x.book.Holds := by
    funext q r i
    refine propext ?_
    unfold Book.HoldsBut
    split
    · next hq => rw [hq]; exact hy.roster r i
    · exact Iff.rfl
  have hnext : x.book.nextRef ≤ y.book.nextRef := hy.handles.next
  refine ⟨hy.handles, hy.side.trans hs, hy.price, ?_, ?_, ?_, ?_, ?_, ?_⟩
  · rw [hholds]; exact h.sound
  · rw [hholds]; exact h.placed
  · intro e he
    obtain ⟨hmanaged, hlt⟩ := h.gone e (hy.detachedEntries ▸ he)
    exact ⟨hmanaged, hlt.trans_le hnext⟩
  · intro q r i hitem
    rw [hholds] at hitem
    exact (h.below hitem).trans_le hnext
  · intro r hr; exact (h.asideBelow r hr).trans_le hnext
  · intro hno
    rw [hholds]
    exact h.new (hy.haveEntries.symm.trans hno)

end

theorem Works.done (h : Works title late b₀ s p attached x l) (hfits : b₀.Fits) (hapart : b₀.Apart)
    (hleft : attached = false → late ∨ l.roster = []) : Registered title late x := by
  have hheld : ∀ q r i, x.book.Holds q r i ↔
      b₀.HoldsBut (s, p) l q r i ∧ (attached = false → q ≠ (s, p)) := by
    intro q r i
    by_cases hq : q = (s, p)
    · subst hq
      rw [holdsBut_self]
      rw [Book.Holds, h.handles.found]
      cases attached with
      | true => simp
      | false => simp
    · rw [h.holds hq]; exact ⟨fun hitem => ⟨hitem, fun _ => hq⟩, And.left⟩
  have haside : ∀ r, x.book.Aside r ↔
      b₀.Aside r ∨ attached = false ∧ ∃ id, (r, id) ∈ l.roster := by
    intro r
    unfold Book.Aside
    rw [h.handles.aside]
    cases attached with
    | true => simp
    | false => simp
  have hsub : ∀ q r i, x.book.Holds q r i → b₀.HoldsBut (s, p) l q r i := by
    intro q r i hitem; exact ((hheld q r i).mp hitem).1
  refine ⟨h.handles.fits hfits, h.handles.apart hapart, ?_, h.placed.mono hsub, h.gone, ?_, ?_⟩
  · cases attached with
    | true =>
      refine h.sound.congr (fun q r i => ?_) rfl rfl fun r => ?_
      · exact (hheld q r i).trans (by simp [EntryManager.register])
      · exact (haside r).trans (by simp)
    | false =>
      have htake := h.sound.take (s, p) fun r i hitem => ?_
      · refine htake.congr (fun q r i => ?_) rfl rfl fun r => ?_
        · exact (hheld q r i).trans (by simp [EntryManager.register, Register.take])
        · refine (haside r).trans ?_
          simp only [true_and]
          exact or_congr Iff.rfl (exists_congr fun i => holdsBut_self.symm)
      · rcases hleft rfl with hlate | hnil
        · exact hlate
        · have hmem := holdsBut_self.mp hitem
          rw [hnil] at hmem
          cases hmem
  · intro r hr
    rcases (haside r).mp hr with hr | ⟨-, i, hmem⟩
    · exact h.asideBelow r hr
    · exact h.below (s, p) r i (holdsBut_self.mpr hmem)
  · intro hno q r i hitem; exact h.new hno q r i (hsub q r i hitem)

/-! ## The entries of a level -/

theorem onEntryField_place (t : Bool) (f : BookMsgFields) (e : EntryField) :
    (f.onEntryField t e).plSide = f.plSide ∧ (f.onEntryField t e).plPrice = f.plPrice := by
  cases e <;> cases t <;> exact ⟨rfl, rfl⟩

theorem processEntryMessage_place (t : Bool) (f : BookMsgFields) (msg : EntryMsg) :
    (f.processEntryMessage t msg).plSide = f.plSide ∧
      (f.processEntryMessage t msg).plPrice = f.plPrice := by
  have hfold : ∀ (es : EntryMsg) (f : BookMsgFields),
      (es.foldl (BookMsgFields.onEntryField t) f).plSide = f.plSide ∧
        (es.foldl (BookMsgFields.onEntryField t) f).plPrice = f.plPrice := by
    intro es
    induction es with
    | nil => exact fun f => ⟨rfl, rfl⟩
    | cons e es ih =>
      intro f
      obtain ⟨hside, hprice⟩ := onEntryField_place t f e
      exact ⟨(ih _).1.trans hside, (ih _).2.trans hprice⟩
  unfold BookMsgFields.processEntryMessage
  dsimp only
  split <;> exact hfold msg f

variable {cleans : Bool}

/-- **The entries of a level**, where those that a level out of the book still has are deleted. -/
theorem Works.entries {r : Managed × PriceLevel}
    (h : Works title (cleans) b₀ s p attached r.1 r.2) (pa : Action) (msgs : List EntryMsg)
    (hm : EntriesMeet title cleans (s, p) pa r msgs)
    (hleft : attached = false → cleans ∨ ∀ t ∈ r.2.roster, Deletes pa t.2 r msgs) :
    ∃ attached', Works title (cleans) b₀ s p attached'
        (msgs.foldl (processEntrySubMsg pa) r).1 (msgs.foldl (processEntrySubMsg pa) r).2 ∧
      (attached' = false → cleans ∨ (msgs.foldl (processEntrySubMsg pa) r).2.roster = []) := by
  induction msgs generalizing r attached with
  | nil =>
    refine ⟨attached, h, fun hatt => (hleft hatt).imp_right fun hall => ?_⟩
    rwa [eq_nil_iff_forall_not_mem]
  | cons msg msgs ih =>
    obtain ⟨hentry, hrest⟩ := hm
    obtain ⟨hside, hprice⟩ :=
      processEntryMessage_place r.1.listener.takesEntries r.1.fields msg
    have hread : Works title (cleans) b₀ s p attached (r.1.reads msg) r.2 :=
      h.withFields hside hprice
    obtain ⟨attached', hworks, hprogress, hdeleted⟩ := hread.processEntry hentry pa
    have hnext : Works title (cleans) b₀ s p attached' (processEntrySubMsg pa r msg).1
        (processEntrySubMsg pa r msg).2 := hworks.withFields rfl rfl
    refine ih hnext hrest fun hatt' => ?_
    rcases hprogress.left hatt' with hatt | hcleans | hnil
    · rcases hleft hatt with hcleans | hall
      · exact .inl hcleans
      rcases hprogress.nothingNew hatt with hcleans | hold
      · exact .inl hcleans
      · right
        rintro ⟨r', id⟩ hmem
        rcases hall (r', id) (hold _ hmem) with ⟨hid, hne, ha⟩ | hlater
        · exact absurd hmem (hdeleted id hid hne ha r')
        · exact hlater
    · exact .inl hcleans
    · right
      intro t ht
      rw [show (processEntrySubMsg pa r msg).2.roster = [] from hnil] at ht
      cases ht

theorem Works.shown (h : Works title late b₀ s p attached x l) (es : List Entry)
    (hes : ∀ e ∈ es, (e.ref, e.id) ∈ l.roster) (hnodup : (es.map Entry.ref).Nodup) :
    Works title late b₀ s p attached (x.deleteShownEntries l es).1 (x.deleteShownEntries l es).2 ∧
      ∀ r id, (r, id) ∈ (x.deleteShownEntries l es).2.roster ↔
        (r, id) ∈ l.roster ∧ r ∉ es.map Entry.ref := by
  induction es generalizing x l with
  | nil => exact ⟨h, fun r id => by simp [Managed.deleteShownEntries]⟩
  | cons e es ih =>
    obtain ⟨hworks, hroster⟩ := h.deletesShown (hes e mem_cons_self)
    rw [map_cons, nodup_cons] at hnodup
    have hrest : ∀ e' ∈ es, (e'.ref, e'.id) ∈ (x.deleteShownEntries l [e]).2.roster := by
      intro e' he'
      refine (hroster e'.ref e'.id).mpr ⟨hes e' (mem_cons_of_mem e he'), ?_⟩
      intro heq
      exact hnodup.1 (heq ▸ mem_map_of_mem he')
    obtain ⟨hall, hlast⟩ := ih hworks hrest hnodup.2
    refine ⟨hall, fun r id => (hlast r id).trans ?_⟩
    rw [hroster, map_cons, mem_cons, not_or, and_assoc]

theorem processEntries_attached (x : Managed) (l : PriceLevel) (pa : Action)
    (honly : x.listener.levelsOnly = false) (hn : x.fields.plNumAttach ≠ 0) :
    x.processEntries l pa = .error .crash ∨
      x.processEntries l pa = .ok (x.attachedEntries.foldl (processEntrySubMsg pa) (x, l)) := by
  rw [Managed.processEntries, attachedEntries, honly, if_neg Bool.false_ne_true, if_neg hn]
  cases x.fields.entryVector with
  | some v =>
    dsimp only
    split
    · exact .inr rfl
    · exact .inl rfl
  | none =>
    right
    dsimp only
    split <;> rfl

/-- **`processEntries`**, of which only a crash is left out. -/
theorem Works.processEntries (h : Works title (cleans) b₀ s p attached x l) (pa : Action)
    (hm : x.listener.levelsOnly = false → x.fields.plNumAttach ≠ 0 →
      EntriesMeet title cleans (s, p) pa (x, l) x.attachedEntries)
    (hempties : attached = false → pa = .delete ∧ (cleans ∨ Empties pa x l)) :
    x.processEntries l pa = .error .crash ∨
      ∃ r attached', x.processEntries l pa = .ok r ∧
        Works title (cleans) b₀ s p attached' r.1 r.2 ∧
        (attached' = false → cleans ∨ r.2.roster = []) := by
  cases honly : x.listener.levelsOnly with
  | true =>
    right
    refine ⟨(x, l), attached, ?_, h, fun hatt => (hempties hatt).2.imp_right fun hno => ?_⟩
    · rw [Managed.processEntries, honly, if_pos rfl]
    · unfold Empties at hno
      rw [honly] at hno
      exact PriceLevel.roster_eq_nil.mpr hno
  | false =>
    by_cases hn : x.fields.plNumAttach = 0
    · right
      by_cases hshown : pa ≠ .delete ∨ l.entryList.filter (x.book.counts l) = []
      · refine ⟨(x.withListener (x.listener.addDelta none l pa .unknown), l), attached, ?_, ?_, ?_⟩
        · rw [Managed.processEntries, honly, if_pos hn]; exact if_pos hshown
        · exact ⟨h.handles, h.side, h.price, h.sound, h.placed, h.gone, h.below, h.asideBelow,
            h.new⟩
        intro hatt
        obtain ⟨hdelete, hempty⟩ := hempties hatt
        refine hempty.imp_right fun hall => ?_
        unfold Empties at hall
        rw [honly, if_pos hn] at hall
        have hnil := hshown.resolve_left (not_not_intro hdelete)
        rw [List.filter_eq_self.mpr hall] at hnil
        exact PriceLevel.roster_eq_nil.mpr hnil
      let shown := l.entryList.filter (x.book.counts l)
      have hsub : shown.Sublist l.entryList := filter_sublist
      obtain ⟨hworks, hroster⟩ := h.shown shown
        (fun e he => PriceLevel.mem_roster.mpr ⟨e, hsub.subset he, rfl, rfl⟩)
        (h.handles.fit.refs.sublist (hsub.map _))
      refine ⟨_, attached, ?_, hworks, fun hatt => (hempties hatt).2.imp_right fun hall => ?_⟩
      · rw [Managed.processEntries, honly, if_pos hn]; exact if_neg hshown
      unfold Empties at hall
      rw [honly, if_pos hn] at hall
      rw [eq_nil_iff_forall_not_mem]
      rintro ⟨r, id⟩ hmem
      obtain ⟨hold, hnot⟩ := (hroster r id).mp hmem
      obtain ⟨e, he, rfl, -⟩ := PriceLevel.mem_roster.mp hold
      exact hnot (mem_map_of_mem (List.mem_filter.mpr ⟨he, hall e he⟩))
    rcases x.processEntries_attached l pa honly hn with hcrash | hok
    · exact .inl hcrash
    right
    have hdeleted : attached = false →
        cleans ∨ ∀ t ∈ l.roster, Deletes pa t.2 (x, l) x.attachedEntries := by
      intro hatt
      refine (hempties hatt).2.imp_right fun hall => ?_
      unfold Empties at hall
      rw [honly, if_neg hn] at hall
      rintro ⟨r, id⟩ hmem
      obtain ⟨e, he, -, rfl⟩ := PriceLevel.mem_roster.mp hmem
      exact hall e he
    obtain ⟨attached', hworks, hleft⟩ :=
      Works.entries (r := (x, l)) h pa x.attachedEntries (hm honly hn) hdeleted
    exact ⟨_, attached', hok, hworks, hleft⟩

/-! ## Levels -/

theorem fields_processLevelPart2 (y : Listener) (l : PriceLevel) :
    (y.processLevelPart2 l).fields = y.fields := by
  unfold Listener.processLevelPart2
  dsimp only
  (repeat' split) <;> rfl

theorem Works.part2 (h : Works title late b₀ s p attached x l) (hfits : b₀.Fits)
    (hapart : b₀.Apart) (hleft : attached = false → late ∨ l.roster = []) :
    Registered title late (x.withListener (x.listener.processLevelPart2 l)) := by
  obtain ⟨attached', -, hout, hhandles, hhave, hentries, hnext⟩ :=
    Listener.processLevelPart2_spec h.handles
  have hfields := fields_processLevelPart2 x.listener l
  have hroster : (Listener.sizedLevel x.fields l).roster = l.roster := by
    unfold PriceLevel.roster
    rw [(Listener.sizedLevel_frame x.fields l).2.2.2.2.2]
  have hholds := holdsBut_congr b₀ hroster (s, p)
  have hside : (x.listener.processLevelPart2 l).fields.plSide = s.side := by
    rw [hfields]; exact h.side
  have hprice : (x.listener.processLevelPart2 l).fields.plPrice = p := by
    rw [hfields]; exact h.price
  have hworks : Works title late b₀ s p attached'
      (x.withListener (x.listener.processLevelPart2 l)) (Listener.sizedLevel x.fields l) := by
    refine ⟨hhandles, hside, hprice, ?_, ?_, ?_, ?_, ?_, ?_⟩
    · rw [hholds]; exact h.sound
    · rw [hholds]; exact h.placed
    · intro e he
      obtain ⟨hmanaged, hlt⟩ := h.gone e (hentries ▸ he)
      exact ⟨hmanaged, hlt.trans_eq hnext.symm⟩
    · intro q r i hitem
      rw [hholds] at hitem
      exact (h.below q r i hitem).trans_eq hnext.symm
    · intro r hr; exact (h.asideBelow r hr).trans_eq hnext.symm
    · intro hno
      rw [hholds]
      exact h.new (hhave.symm.trans hno)
  refine hworks.done hfits hapart fun hatt' => ?_
  rw [hroster]
  rcases hout hatt' with hatt | hno
  · exact hleft hatt
  · right
    rw [eq_nil_iff_forall_not_mem]
    rintro ⟨r, i⟩ hmem
    exact h.new hno (s, p) r i (holdsBut_self.mpr hmem)

section

variable (h : Registered title (cleans) x)

include h

variable {y : Managed}

/-- **One level**, also where it throws. -/
theorem Registered.processLevel (hm : LevelMeets title cleans x)
    (hy : caught x.processLevel = some y) : Registered title (cleans) y := by
  cases hs : x.fields.plSide.book? with
  | none =>
    have hpart : x.listener.processLevelPart1 = .error (.thrown x.listener) := by
      rw [Listener.processLevelPart1, show x.listener.fields.plSide.book? = none from hs]
    have hlevel : x.processLevel = .error (.thrown x) := by
      rw [Managed.processLevel, Managed.processLevelPart1, hpart]; rfl
    rw [hlevel] at hy
    rwa [← some.inj hy]
  | some s =>
    have hside : x.fields.plSide = s.side := Side.book?_eq_some.mp hs
    rcases Listener.processLevelPart1_takesUp hside h.fits h.apart with hpart |
      ⟨z, attached, l, hpart, htakes⟩
    · have hlevel : x.processLevel = .ok x := by
        rw [Managed.processLevel, Managed.processLevelPart1, hpart]; rfl
      rw [hlevel] at hy
      rwa [← some.inj hy]
    have hpart₁ : x.processLevelPart1 = .ok (x.withListener z, some l) := by
      rw [Managed.processLevelPart1, hpart]
    have hin : x.levelInHand = some ((s, x.fields.plPrice), x.withListener z, l) := by
      rw [levelInHand, hs, hpart₁]
    obtain ⟨hentries, hempties⟩ := hm _ hin
    have hworks := h.takesUp htakes hside
    have hrest : x.processLevel = (x.withListener z).processEntries l z.fields.plAction >>= fun r =>
        pure (r.1.withListener (r.1.listener.processLevelPart2 r.2)) := by
      rw [Managed.processLevel, hpart₁]
      rfl
    rw [hrest] at hy
    rcases hworks.processEntries z.fields.plAction hentries (fun hatt =>
      ⟨(htakes.deleted hatt).2, hempties (htakes.deleted hatt).1⟩) with hcrash |
      ⟨r, attached', hok, hdone, hleft⟩
    · rw [hcrash] at hy; cases hy
    · rw [hok] at hy
      rw [← some.inj hy]
      exact hdone.part2 h.fits h.apart hleft

theorem Registered.levels {clear : Bool} {msgs : List LevelMsg}
    (hm : LevelsMeet title cleans clear x msgs)
    (hy : caught (msgs.foldlM (processLevelSubMsg clear) x) = some y) :
    Registered title (cleans) y := by
  induction msgs generalizing x with
  | nil => rwa [← some.inj hy]
  | cons msg msgs ih =>
    obtain ⟨hlevel, hrest⟩ := hm
    have hone : ∀ z, caught (processLevelSubMsg clear x msg) = some z →
        Registered title (cleans) z := fun z hz => (h.withFields _).processLevel hlevel hz
    rw [foldlM_cons] at hy
    cases hr : processLevelSubMsg clear x msg with
    | ok z => rw [hr] at hy hone hrest; exact ih (hone z rfl) (hrest z rfl) hy
    | error stop => rw [hr] at hy hone; exact hone y hy

/-- **`createDelta`** for a message that meets the condition. -/
theorem Registered.createDelta (hm : DeltaMeets title cleans x)
    (hy : caught x.createDelta = some y) :
    Registered title (cleans) y := by
  unfold Managed.createDelta at hy
  by_cases hn : x.fields.numLevels = 0
  · rw [if_pos hn] at hy
    rwa [← some.inj hy]
  rw [if_neg hn] at hy
  obtain ⟨hvector, hlist⟩ := hm hn
  cases hv : x.fields.priceLevelVector with
  | some v =>
    rw [hv] at hy
    dsimp only at hy
    split at hy
    · exact h.levels (hvector v hv) hy
    · cases hy
  | none =>
    rw [hv] at hy
    have hcond := hlist hv
    by_cases hnil : x.fields.priceLevels = []
    · rw [if_pos hnil] at hcond
      rw [if_pos hnil] at hy
      exact (h.withFields _).processLevel hcond hy
    · rw [if_neg hnil] at hcond
      rw [if_neg hnil] at hy
      exact h.levels hcond hy

end

end Registered

end Managed

end Mamda
