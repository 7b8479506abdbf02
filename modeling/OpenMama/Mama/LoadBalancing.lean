import Mathlib.Algebra.Order.Group.Nat
import Mathlib.Data.List.Range

/-!
# The bridge transports of a load balanced transport

A transport has one bridge transport, or one for each of the sub transports that are
configured if a load balance callback was installed when it was created.  The callback moves
the current index at every set-up of a subscription.

All indices are in range and round robin goes round as long as the initial index is not the
number of sub transports, and as long as a transport with fewer bridge transports than that is
not destroyed and is not asked for the others.
-/

namespace Mama.LoadBalancing

open List

/-! ## The transport -/

/-- The values of `mama_status` that are told apart. -/
inductive Status
  | ok
  | invalidArg
  | other (code : Nat)
  deriving DecidableEq, Repr

/-- `tportLbScheme`; any other value is taken as static. -/
inductive Scheme
  | static
  | roundRobin
  | api
  | library
  deriving DecidableEq, Repr

/-- `mamaTransportLbInitialCB`, from the number of transports. -/
abbrev LbInitialCB := Int → Int

/-- `mamaTransportLbCB`, from the current index, the number of transports, the source and the
symbol; what it returns may change from call to call. -/
abbrev LbCB := (calls : Nat) → Int → Int → String → String → Int

/-- `transportImpl`, with the names that its bridge transports were created with. -/
structure TransportImpl where
  mName : String := ""
  mTransports : List String := []
  mNumTransports : Nat := 0
  mCurTransportIndex : Int := 0
  mLoadBalanceCb : Option LbCB := none
  mLoadBalanceInitialCb : Option LbInitialCB := none
  calls : Nat := 0

/-- `mamaTransport_allocate`. -/
def allocate : TransportImpl := {}

/-- `mamaTransport_setLbInitialCallback`. -/
def setLbInitialCallback (t : TransportImpl) (callback : Option LbInitialCB) : TransportImpl :=
  { t with mLoadBalanceInitialCb := callback }

/-- `mamaTransport_setLbCallback`. -/
def setLbCallback (t : TransportImpl) (callback : Option LbCB) : TransportImpl :=
  { t with mLoadBalanceCb := callback }

def roundRobin : LbCB := fun _ curTransportIndex numTransports _ _ =>
  if curTransportIndex + 1 = numTransports then 0 else curTransportIndex + 1

def randomInitial (tv_usec : Nat) : LbInitialCB := fun numTransports =>
  (tv_usec / 1000 : Nat) % numTransports

/-! ## Creation -/

def MAX_TPORT_NAME_LEN : Nat := 256

/-- `snprintf` into a buffer for a name. -/
def printName (s : String) : String := String.ofList (s.toList.take (MAX_TPORT_NAME_LEN - 1))

structure Library where
  loadBalance : Option LbCB
  loadBalanceInitial : Option LbInitialCB

/-- The name, and what the bridge and the system answer in a creation. -/
structure Creation where
  name : String := "default"
  numTransports : Except Status Nat := .ok 0
  scheme : Except Status Scheme := .ok .static
  library : Except Status (Option Library) := .ok none
  tv_usec : Nat := 0
  /-- What `bridgeMamaTransportCreate` returns for an index. -/
  create : Nat → Status := fun _ => .ok
  rest : Status := .ok

def installScheme (t : TransportImpl) (c : Creation) : Except Status TransportImpl := do
  match ← c.scheme with
  | .roundRobin => return { t with mLoadBalanceCb := some roundRobin }
  | .api => return t
  | .library =>
    match ← c.library with
    | none => return t
    | some library =>
      return { t with
        mLoadBalanceCb := library.loadBalance
        mLoadBalanceInitialCb := library.loadBalanceInitial }
  | .static => return { t with mLoadBalanceCb := none }

/-- The set-up of the load balancing in `mamaTransport_create`. -/
def installLoadBalancing (t : TransportImpl) (c : Creation) (numTransports : Nat) :
    Except Status TransportImpl := do
  if numTransports = 0 then return { t with mNumTransports := 1 }
  else
    let t ← installScheme { t with mNumTransports := numTransports } c
    let initial := t.mLoadBalanceInitialCb.getD (randomInitial c.tv_usec)
    let index := initial t.mNumTransports
    if index < 0 ∨ index > t.mNumTransports then throw .invalidArg
    else return { t with mLoadBalanceInitialCb := some initial, mCurTransportIndex := index }

/-- One call of `bridgeMamaTransportCreate`. -/
def createBridge (c : Creation) (index : Nat) (bridgeName : String) : Except Status String :=
  match c.create index with
  | .ok => .ok (printName bridgeName)
  | status => .error status

/-- The bridge transports of `mamaTransport_create`. -/
def createBridges (t : TransportImpl) (c : Creation) (isLoadBalanced : Bool) :
    Except Status TransportImpl := do
  if t.mLoadBalanceCb.isSome then
    let bridges ← (List.range t.mNumTransports).mapM fun i =>
      createBridge c i (t.mName ++ ".lb" ++ toString i)
    return { t with mTransports := bridges }
  else
    let bridgeName :=
      if isLoadBalanced then t.mName ++ ".lb" ++ toString t.mCurTransportIndex else c.name
    let bridge ← createBridge c 0 bridgeName
    return { t with mTransports := [bridge], mCurTransportIndex := 0 }

/-- `mamaTransport_create`. -/
def create (t : TransportImpl) (c : Creation) : Except Status TransportImpl := do
  let t := { t with mName := printName c.name }
  let numTransports ← c.numTransports
  let t ← installLoadBalancing t c numTransports
  let t ← createBridges t c (numTransports ≠ 0)
  if c.rest = .ok then return t else throw c.rest

/-! ## Uses -/

section

variable (t : TransportImpl)

/-- The index that `mamaTransport_getBridgeTransport` reads. -/
def getBridgeTransport : List Int := [0]

/-- The index that `mamaTransport_getBridgeTransportByIndex` reads. -/
def getBridgeTransportByIndex (index : Int) : List Int := [index]

/-- `mamaTransport_getNativeTransport`, with the index that it reads. -/
def getNativeTransport (index : Int) (nativeTport : Bool) : Status × List Int :=
  if ¬ nativeTport then (.invalidArg, [])
  else if ¬ index < t.mNumTransports then (.invalidArg, [])
  else (.ok, [index])

/-- `mamaTransport_getNativeTransportNamingCtx`. -/
def getNativeTransportNamingCtx (index : Int) (nativeTportNamingCtx : Bool) :
    Status × List Int :=
  getNativeTransport t index nativeTportNamingCtx

/-- `mamaTransportImpl_nextTransportIndex`. -/
def nextTransportIndex (source symbol : String) : TransportImpl :=
  match t.mLoadBalanceCb with
  | some callback =>
    { t with
      mCurTransportIndex :=
        callback t.calls t.mCurTransportIndex t.mNumTransports source symbol
      calls := t.calls + 1 }
  | none => t

/-- The first loop of `mamaTransport_destroy`, up to a transport that is not valid. -/
def readUntilInvalid (valid : Nat → Bool) : List Nat → List Int
  | [] => []
  | i :: rest => i :: if valid i then readUntilInvalid valid rest else []

/-- The indices that both loops of `mamaTransport_destroy` read. -/
def destroy (valid : Nat → Bool) : List Int :=
  readUntilInvalid valid (List.range t.mNumTransports) ++
    (List.range t.mNumTransports).map Int.ofNat

inductive Use
  /-- A subscription is set up and made with the current index. -/
  | setUp (source symbol : String)
  | getBridgeTransport
  | getBridgeTransportByIndex
  | getNativeTransport (index : Int) (nativeTport : Bool)
  | getNativeTransportNamingCtx (index : Int) (nativeTportNamingCtx : Bool)
  deriving DecidableEq, Repr

def Use.reads : Use → List Int
  | .setUp _ _ => LoadBalancing.getBridgeTransportByIndex t.mCurTransportIndex
  | .getBridgeTransport => LoadBalancing.getBridgeTransport
  | .getBridgeTransportByIndex => LoadBalancing.getBridgeTransportByIndex t.mCurTransportIndex
  | .getNativeTransport index nativeTport =>
    (LoadBalancing.getNativeTransport t index nativeTport).2
  | .getNativeTransportNamingCtx index nativeTportNamingCtx =>
    (LoadBalancing.getNativeTransportNamingCtx t index nativeTportNamingCtx).2

def Use.next : Use → TransportImpl
  | .setUp source symbol => nextTransportIndex t source symbol
  | _ => t

end

/-- The indices that uses and the destruction after them read. -/
def reads (t : TransportImpl) (destroyed : Option (Nat → Bool)) : List Use → List Int
  | [] => destroyed.elim [] (destroy t)
  | use :: uses => use.reads t ++ reads (use.next t) destroyed uses

def setUps (t : TransportImpl) : List Use → List Int
  | [] => []
  | .setUp source symbol :: uses =>
    t.mCurTransportIndex :: setUps (nextTransportIndex t source symbol) uses
  | _ :: uses => setUps t uses

/-! ## What a creation makes -/

theorem bind_eq_ok {α β : Type} {x : Except Status α} {f : α → Except Status β} {b : β}
    (h : x >>= f = .ok b) : ∃ a, x = .ok a ∧ f a = .ok b := by
  cases x with
  | error e => cases h
  | ok a => exact ⟨a, rfl, h⟩

theorem length_mapM_ok {α β : Type} {f : α → Except Status β} {xs : List α} {ys : List β}
    (h : xs.mapM f = .ok ys) : ys.length = xs.length := by
  induction xs generalizing ys with
  | nil => cases h; rfl
  | cons x xs ih =>
    rw [mapM_cons] at h
    obtain ⟨y, -, h⟩ := bind_eq_ok h
    obtain ⟨ys', hys, h⟩ := bind_eq_ok h
    cases h
    rw [length_cons, length_cons, ih hys]

/-- What holds of a transport before its bridge transports are made. -/
structure Installed (c : Creation) (t : TransportImpl) : Prop where
  pos : 0 < t.mNumTransports
  nonneg : 0 ≤ t.mCurTransportIndex
  le : t.mCurTransportIndex ≤ t.mNumTransports
  roundRobin : c.scheme = .ok .roundRobin → c.numTransports ≠ .ok 0 →
    t.mLoadBalanceCb = some roundRobin

/-- What holds of a transport that was created: there is a bridge transport for each sub
transport if a callback is installed, and just one otherwise. -/
structure Created (c : Creation) (t : TransportImpl) : Prop extends Installed c t where
  all : t.mLoadBalanceCb.isSome → t.mTransports.length = t.mNumTransports
  single : t.mLoadBalanceCb = none → t.mTransports.length = 1 ∧ t.mCurTransportIndex = 0

theorem installScheme_numTransports {t t' : TransportImpl} {c : Creation}
    (h : installScheme t c = .ok t') : t'.mNumTransports = t.mNumTransports := by
  obtain ⟨scheme, -, h⟩ := bind_eq_ok h
  cases scheme with
  | static | roundRobin | api => cases h; rfl
  | library =>
    obtain ⟨library, -, h⟩ := bind_eq_ok h
    cases library <;> cases h <;> rfl

theorem installed {t₀ t : TransportImpl} {c : Creation} {n : Nat} (hn : c.numTransports = .ok n)
    (h₀ : t₀.mCurTransportIndex = 0) (h : installLoadBalancing t₀ c n = .ok t) : Installed c t := by
  unfold installLoadBalancing at h
  by_cases hzero : n = 0
  · rw [if_pos hzero] at h
    cases h
    refine ⟨Nat.one_pos, h₀.ge, ?_, fun _ hne => (hne (hzero ▸ hn)).elim⟩
    rw [h₀]
    exact Int.natCast_nonneg 1
  rw [if_neg hzero] at h
  obtain ⟨t', hscheme, h⟩ := bind_eq_ok h
  have hnum := installScheme_numTransports hscheme
  generalize t'.mLoadBalanceInitialCb.getD (randomInitial c.tv_usec) = initial at h
  by_cases hrange : initial t'.mNumTransports < 0 ∨ initial t'.mNumTransports > t'.mNumTransports
  · rw [if_pos hrange] at h; cases h
  rw [if_neg hrange] at h
  cases h
  rw [not_or, not_lt, not_lt] at hrange
  refine ⟨hnum ▸ Nat.pos_of_ne_zero hzero, hrange.1, hrange.2, fun hrobin _ => ?_⟩
  unfold installScheme at hscheme
  rw [hrobin] at hscheme
  cases hscheme
  rfl

theorem created {t₀ t : TransportImpl} {c : Creation} (h₀ : t₀.mCurTransportIndex = 0)
    (h : create t₀ c = .ok t) : Created c t := by
  obtain ⟨n, hn, h⟩ := bind_eq_ok h
  obtain ⟨t', hinstall, h⟩ := bind_eq_ok h
  have hinstalled := installed hn (by exact h₀) hinstall
  obtain ⟨t'', hbridges, h⟩ := bind_eq_ok h
  have ht : t'' = t := by
    by_cases hrest : c.rest = .ok
    · rw [if_pos hrest] at h; exact Except.ok.inj h
    · rw [if_neg hrest] at h; cases h
  subst ht
  unfold createBridges at hbridges
  by_cases hcb : t'.mLoadBalanceCb.isSome
  · rw [if_pos hcb] at hbridges
    obtain ⟨bridges, hmap, hbridges⟩ := bind_eq_ok hbridges
    cases hbridges
    refine
      { toInstalled := ⟨hinstalled.pos, hinstalled.nonneg, hinstalled.le, hinstalled.roundRobin⟩
        all := fun _ => ?_
        single := fun hnone => ?_ }
    · rw [length_mapM_ok hmap, length_range]
    · rw [show t'.mLoadBalanceCb = none from hnone] at hcb; cases hcb
  rw [if_neg hcb] at hbridges
  obtain ⟨bridge, -, hbridges⟩ := bind_eq_ok hbridges
  cases hbridges
  exact
    { toInstalled := ⟨hinstalled.pos, le_rfl, Int.natCast_nonneg _, hinstalled.roundRobin⟩
      all := fun hsome => (hcb hsome).elim
      single := fun _ => ⟨rfl, rfl⟩ }

/-! ## Indices in range -/

/-- A load balance callback stays among the transports. -/
def Maps (callback : LbCB) (numTransports : Nat) : Prop :=
  ∀ (calls : Nat) (cur : Int) (source symbol : String), 0 ≤ cur → cur < numTransports →
    0 ≤ callback calls cur numTransports source symbol ∧
      callback calls cur numTransports source symbol < numTransports

def InRange (t : TransportImpl) (index : Int) : Prop := 0 ≤ index ∧ index < t.mTransports.length

/-- Bridge transports are only read where there is one, and round robin goes round. -/
structure Lawful (c : Creation) (t : TransportImpl) (destroyed : Option (Nat → Bool))
    (uses : List Use) : Prop where
  inRange : ∀ index ∈ reads t destroyed uses, InRange t index
  rotates : c.scheme = .ok .roundRobin → c.numTransports ≠ .ok 0 →
    ∀ k (h : k < (setUps t uses).length),
      (setUps t uses).get ⟨k, h⟩ = (t.mCurTransportIndex + k) % t.mNumTransports

/-- What a use needs: an initial index that is not the number of transports, or an index of a
native transport that is not negative and, if no callback is installed, 0. -/
def UseOk (t : TransportImpl) : Use → Prop
  | .setUp _ _ | .getBridgeTransportByIndex =>
    t.mLoadBalanceCb.isSome → t.mCurTransportIndex ≠ t.mNumTransports
  | .getBridgeTransport => True
  | .getNativeTransport index result | .getNativeTransportNamingCtx index result =>
    result → index < t.mNumTransports → 0 ≤ index ∧ (t.mLoadBalanceCb.isSome ∨ index = 0)

/-- What the uses need, and a destruction after them: a callback, or a single transport. -/
def Meets (t : TransportImpl) (destroyed : Option (Nat → Bool)) (uses : List Use) : Prop :=
  (∀ use ∈ uses, UseOk t use) ∧
    (destroyed.isSome → t.mLoadBalanceCb.isSome ∨ t.mNumTransports = 1)

structure Inv (t : TransportImpl) : Prop where
  pos : 0 < t.mNumTransports
  nonneg : 0 ≤ t.mCurTransportIndex
  le : t.mCurTransportIndex ≤ t.mNumTransports
  all : t.mLoadBalanceCb.isSome → t.mTransports.length = t.mNumTransports
  single : t.mLoadBalanceCb = none → t.mTransports.length = 1 ∧ t.mCurTransportIndex = 0
  maps : ∀ f, t.mLoadBalanceCb = some f → Maps f t.mNumTransports

variable {c : Creation} {t : TransportImpl} {use : Use} {uses : List Use}
  {destroyed : Option (Nat → Bool)}

theorem nextTransportIndex_none (h : t.mLoadBalanceCb = none) (source symbol : String) :
    nextTransportIndex t source symbol = t := by
  rw [nextTransportIndex, h]

theorem nextTransportIndex_same (t : TransportImpl) (source symbol : String) :
    (nextTransportIndex t source symbol).mLoadBalanceCb = t.mLoadBalanceCb ∧
      (nextTransportIndex t source symbol).mNumTransports = t.mNumTransports ∧
      (nextTransportIndex t source symbol).mTransports = t.mTransports := by
  unfold nextTransportIndex
  cases h : t.mLoadBalanceCb with
  | none => exact ⟨h, rfl, rfl⟩
  | some f => exact ⟨rfl, rfl, rfl⟩

namespace Inv

section

variable (ht : Inv t)

include ht

theorem cases : (t.mLoadBalanceCb.isSome ∧ t.mTransports.length = t.mNumTransports) ∨
    (t.mLoadBalanceCb = none ∧ t.mTransports.length = 1 ∧ t.mCurTransportIndex = 0) := by
  cases h : t.mLoadBalanceCb with
  | none => exact .inr ⟨rfl, ht.single h⟩
  | some f => exact .inl ⟨rfl, ht.all (by rw [h]; rfl)⟩

theorem current_iff : InRange t t.mCurTransportIndex ↔
    (t.mLoadBalanceCb.isSome → t.mCurTransportIndex ≠ t.mNumTransports) := by
  have hnonneg := ht.nonneg
  have hle := ht.le
  unfold InRange
  rcases ht.cases with ⟨hcb, hlength⟩ | ⟨hcb, hlength, hzero⟩
  · rw [hlength]
    constructor
    · intro h _; omega
    · intro h
      have := h hcb
      omega
  · rw [hlength, hzero, hcb]; exact iff_of_true ⟨le_rfl, Int.one_pos⟩ nofun

theorem native_iff (index : Int) (result : Bool) :
    (∀ i ∈ (getNativeTransport t index result).2, InRange t i) ↔
    (result → index < t.mNumTransports → 0 ≤ index ∧ (t.mLoadBalanceCb.isSome ∨ index = 0)) := by
  unfold getNativeTransport
  cases result with
  | false => simp
  | true =>
    by_cases haccepted : index < t.mNumTransports
    · have hread : (∀ i ∈ [index], InRange t i) ↔ InRange t index := by simp
      rw [if_neg (by decide), if_neg (not_not.mpr haccepted), hread]
      unfold InRange
      rcases ht.cases with ⟨hcb, hlength⟩ | ⟨hcb, hlength, -⟩
      · rw [hlength]
        exact ⟨fun h _ _ => ⟨h.1, .inl hcb⟩, fun h => ⟨(h rfl haccepted).1, haccepted⟩⟩
      rw [hcb]
      constructor
      · intro h _ _
        refine ⟨h.1, .inr ?_⟩
        omega
      · intro h
        obtain ⟨hnonneg, hsome | hzero⟩ := h rfl haccepted
        · cases hsome
        · omega
    · rw [if_pos haccepted]; exact iff_of_true (fun i h => by cases h) fun _ h => (haccepted h).elim

/-- **One use** reads bridge transports that there are just where its condition is met. -/
theorem use_iff (use : Use) : (∀ i ∈ use.reads t, InRange t i) ↔ UseOk t use := by
  have hcurrent : (∀ i ∈ [t.mCurTransportIndex], InRange t i) ↔
      InRange t t.mCurTransportIndex := by simp
  cases use with
  | setUp source symbol => exact hcurrent.trans ht.current_iff
  | getBridgeTransportByIndex => exact hcurrent.trans ht.current_iff
  | getBridgeTransport =>
    refine iff_of_true (fun i h => ?_) trivial
    obtain rfl := mem_singleton.mp h
    have hpos := ht.pos
    unfold InRange
    rcases ht.cases with ⟨-, hlength⟩ | ⟨-, hlength, -⟩ <;> omega
  | getNativeTransport index result => exact ht.native_iff index result
  | getNativeTransportNamingCtx index result => exact ht.native_iff index result

theorem next (hok : UseOk t use) : Inv (use.next t) ∧
    (use.next t).mLoadBalanceCb = t.mLoadBalanceCb ∧
    (use.next t).mNumTransports = t.mNumTransports ∧ (use.next t).mTransports = t.mTransports ∧
    ∀ later, UseOk (use.next t) later ↔ UseOk t later := by
  cases use with
  | setUp source symbol =>
    show Inv (nextTransportIndex t source symbol) ∧ _
    obtain ⟨hcb, hnum, hbridges⟩ := nextTransportIndex_same t source symbol
    cases hf : t.mLoadBalanceCb with
    | none =>
      have hnext : Use.next t (.setUp source symbol) = t := nextTransportIndex_none hf source symbol
      rw [hnext, nextTransportIndex_none hf source symbol]
      exact ⟨ht, hf, rfl, rfl, fun _ => Iff.rfl⟩
    | some f =>
      have hne : t.mCurTransportIndex ≠ t.mNumTransports := hok (by rw [hf]; rfl)
      have hnonneg := ht.nonneg
      have hle := ht.le
      obtain ⟨hlow, hhigh⟩ := ht.maps f hf t.calls t.mCurTransportIndex source symbol hnonneg
        (by omega)
      have hcur : (nextTransportIndex t source symbol).mCurTransportIndex =
          f t.calls t.mCurTransportIndex t.mNumTransports source symbol := by
        rw [nextTransportIndex, hf]
      have hsome : (nextTransportIndex t source symbol).mLoadBalanceCb = some f := hcb.trans hf
      refine ⟨⟨?_, ?_, ?_, ?_, ?_, ?_⟩, hsome, hnum, hbridges, fun later => ?_⟩
      · rw [hnum]; exact ht.pos
      · rwa [hcur]
      · rw [hcur, hnum]; exact hhigh.le
      · rw [hbridges, hnum, hcb]; exact ht.all
      · intro hnone
        rw [hsome] at hnone
        cases hnone
      · rw [hcb, hnum]; exact ht.maps
      have hindex : ((nextTransportIndex t source symbol).mLoadBalanceCb.isSome →
          (nextTransportIndex t source symbol).mCurTransportIndex ≠
            (nextTransportIndex t source symbol).mNumTransports) ↔
          (t.mLoadBalanceCb.isSome → t.mCurTransportIndex ≠ t.mNumTransports) := by
        refine iff_of_true (fun _ => ?_) fun _ => hne
        omega
      have hnative : ∀ (index : Int) (result : Bool),
          (result → index < (nextTransportIndex t source symbol).mNumTransports → 0 ≤ index ∧
            ((nextTransportIndex t source symbol).mLoadBalanceCb.isSome ∨ index = 0)) ↔
          (result → index < t.mNumTransports →
            0 ≤ index ∧ (t.mLoadBalanceCb.isSome ∨ index = 0)) := by
        intro index result
        rw [hnum, hcb]
      cases later with
      | setUp _ _ => exact hindex
      | getBridgeTransportByIndex => exact hindex
      | getBridgeTransport => exact Iff.rfl
      | getNativeTransport index result => exact hnative index result
      | getNativeTransportNamingCtx index result => exact hnative index result
  | getBridgeTransport => exact ⟨ht, rfl, rfl, rfl, fun _ => Iff.rfl⟩
  | getBridgeTransportByIndex => exact ⟨ht, rfl, rfl, rfl, fun _ => Iff.rfl⟩
  | getNativeTransport index result => exact ⟨ht, rfl, rfl, rfl, fun _ => Iff.rfl⟩
  | getNativeTransportNamingCtx index result => exact ⟨ht, rfl, rfl, rfl, fun _ => Iff.rfl⟩

omit ht in
theorem mem_readUntilInvalid {valid : Nat → Bool} {indices : List Nat} {i : Int}
    (h : i ∈ readUntilInvalid valid indices) : i ∈ indices.map Int.ofNat := by
  induction indices with
  | nil => cases h
  | cons j rest ih =>
    rcases mem_cons.mp h with rfl | h
    · exact mem_cons_self
    · refine mem_cons_of_mem _ (ih ?_)
      cases hvalid : valid j with
      | false => rw [hvalid] at h; cases h
      | true => rwa [hvalid] at h

theorem destroy_iff (valid : Nat → Bool) :
    (∀ i ∈ destroy t valid, InRange t i) ↔ t.mLoadBalanceCb.isSome ∨ t.mNumTransports = 1 := by
  have hpos := ht.pos
  have hall : (∀ i ∈ destroy t valid, InRange t i) ↔ t.mNumTransports ≤ t.mTransports.length := by
    constructor
    · intro h
      have hlast := h (t.mNumTransports - 1 : Nat) (mem_append.mpr (.inr
        (mem_map.mpr ⟨_, mem_range.mpr (by omega), rfl⟩)))
      unfold InRange at hlast
      omega
    · intro hle i hi
      have hmem : i ∈ (List.range t.mNumTransports).map Int.ofNat :=
        (mem_append.mp hi).elim mem_readUntilInvalid fun h => h
      obtain ⟨j, hj, rfl⟩ := mem_map.mp hmem
      have := mem_range.mp hj
      exact ⟨Int.natCast_nonneg j, Int.ofNat_lt.mpr (by omega)⟩
  rw [hall]
  rcases ht.cases with ⟨hcb, hlength⟩ | ⟨hcb, hlength, -⟩
  · exact iff_of_true hlength.ge (.inl hcb)
  · rw [hlength, hcb]
    constructor
    · intro h; exact .inr (by omega)
    · rintro (h | h)
      · cases h
      · exact h.le

/-- **All uses.** -/
theorem reads_iff (uses : List Use) :
    (∀ i ∈ reads t destroyed uses, InRange t i) ↔ Meets t destroyed uses := by
  have hsplit : ∀ {t : TransportImpl} {use : Use} {uses : List Use},
      (∀ i ∈ reads t destroyed (use :: uses), InRange t i) ↔
        (∀ i ∈ use.reads t, InRange t i) ∧
          ∀ i ∈ reads (use.next t) destroyed uses, InRange t i := by
    intro t use uses
    exact forall_mem_append
  induction uses generalizing t with
  | nil =>
    cases destroyed with
    | none => exact iff_of_true (fun i h => by cases h) ⟨(fun _ h => by cases h), nofun⟩
    | some valid =>
      refine (ht.destroy_iff valid).trans ⟨fun h => ⟨(fun _ h => by cases h), fun _ => h⟩, ?_⟩
      exact fun h => h.2 rfl
  | cons use uses ih =>
    rw [hsplit, ht.use_iff use]
    have hmeets : Meets t destroyed (use :: uses) ↔ UseOk t use ∧ Meets t destroyed uses := by
      unfold Meets
      rw [forall_mem_cons, and_assoc]
    rw [hmeets]
    refine and_congr_right fun hok => ?_
    obtain ⟨hnext, hcb, hnum, hbridges, hlater⟩ := ht.next hok
    have hrange : ∀ i, InRange t i ↔ InRange (use.next t) i := by
      intro i
      unfold InRange
      rw [hbridges]
    have hsame : Meets (use.next t) destroyed uses ↔ Meets t destroyed uses := by
      unfold Meets
      rw [hcb, hnum]
      simp only [hlater]
    refine Iff.trans ?_ ((ih hnext).trans hsame)
    exact forall₂_congr fun i _ => hrange i

theorem setUps_roundRobin (hcb : t.mLoadBalanceCb = some roundRobin)
    (hok : ∀ use ∈ uses, UseOk t use) (k : Nat) (hk : k < (setUps t uses).length) :
    (setUps t uses).get ⟨k, hk⟩ = (t.mCurTransportIndex + k) % t.mNumTransports := by
  induction uses generalizing t k with
  | nil => cases hk
  | cons use uses ih =>
    have hfirst := hok use mem_cons_self
    have hrest : ∀ later ∈ uses, UseOk t later := fun later h => hok later (mem_cons_of_mem _ h)
    cases use with
    | setUp source symbol =>
      obtain ⟨hnext, hcb', hnum, -, hlater⟩ := ht.next hfirst
      have hnonneg := ht.nonneg
      have hle := ht.le
      have hne : t.mCurTransportIndex ≠ t.mNumTransports := hfirst (by rw [hcb]; rfl)
      cases k with
      | zero =>
        show t.mCurTransportIndex = (t.mCurTransportIndex + (0 : Nat)) % t.mNumTransports
        rw [Int.natCast_zero, Int.add_zero, Int.emod_eq_of_lt hnonneg (by omega)]
      | succ k =>
        have hcur : (Use.next t (.setUp source symbol)).mCurTransportIndex =
            (t.mCurTransportIndex + 1) % t.mNumTransports := by
          show (nextTransportIndex t source symbol).mCurTransportIndex = _
          rw [nextTransportIndex, hcb]
          show (if t.mCurTransportIndex + 1 = t.mNumTransports then 0
            else t.mCurTransportIndex + 1) = _
          split
          · next h => rw [h, Int.emod_self]
          · next h => rw [Int.emod_eq_of_lt (by omega) (by omega)]
        have hget := ih hnext (hcb'.trans hcb) (fun later h => (hlater later).mpr (hrest later h))
          k (Nat.lt_of_succ_lt_succ hk)
        show (setUps (Use.next t (.setUp source symbol)) uses).get ⟨k, _⟩ = _
        rw [hget, hcur, hnum, Int.emod_add_emod]
        congr 1
        omega
    | getBridgeTransport => exact ih ht hcb hrest k hk
    | getBridgeTransportByIndex => exact ih ht hcb hrest k hk
    | getNativeTransport index result => exact ih ht hcb hrest k hk
    | getNativeTransportNamingCtx index result => exact ih ht hcb hrest k hk

end

end Inv

/-- **Load balanced indices.**  A transport that was created only reads bridge transports that were
created, and round robin goes round, just where its uses meet their conditions. -/
theorem indexing_iff {lb : Option LbCB} {initial : Option LbInitialCB}
    (hcreate : create (setLbInitialCallback (setLbCallback allocate lb) initial) c = .ok t)
    (hmaps : ∀ f, t.mLoadBalanceCb = some f → Maps f t.mNumTransports)
    (destroyed : Option (Nat → Bool)) (uses : List Use) :
    Lawful c t destroyed uses ↔ Meets t destroyed uses := by
  have hcreated := created rfl hcreate
  have ht : Inv t := ⟨hcreated.pos, hcreated.nonneg, hcreated.le, hcreated.all, hcreated.single,
    hmaps⟩
  constructor
  · intro h; exact (ht.reads_iff uses).mp h.inRange
  · intro h
    refine ⟨(ht.reads_iff uses).mpr h, fun hscheme hzero k hk => ?_⟩
    exact ht.setUps_roundRobin (hcreated.roundRobin hscheme hzero) h.1 k hk

theorem maps_roundRobin (numTransports : Nat) : Maps roundRobin numTransports := by
  intro _ cur _ _ hlow hhigh
  unfold roundRobin
  split <;> omega

/-! ## An initial index past the end -/

def twoTransports : Creation := { numTransports := .ok 2, scheme := .ok .roundRobin }

def twoSetUps : List Use := [.setUp "SOURCE" "A", .setUp "SOURCE" "B"]

def made (index : Int) : TransportImpl where
  mName := "default"
  mTransports := ["default.lb0", "default.lb1"]
  mNumTransports := 2
  mCurTransportIndex := index
  mLoadBalanceCb := some roundRobin
  mLoadBalanceInitialCb := some fun _ => index

/-- From the last one on it goes round. -/
theorem indexing_last : Lawful twoTransports (made 1) (some fun _ => true) twoSetUps := by
  have hcreate : create (setLbInitialCallback allocate (some fun _ => 1)) twoTransports =
      .ok (made 1) := by rfl
  refine (indexing_iff hcreate (fun f hf => ?_) _ _).mpr ⟨fun use huse => ?_, fun _ => .inl rfl⟩
  · cases hf; exact maps_roundRobin 2
  · rcases mem_cons.mp huse with rfl | huse
    · exact fun _ => by decide
    · obtain rfl := mem_singleton.mp huse; exact fun _ => by decide

/-- The number of transports itself is accepted as the initial index. -/
theorem not_indexing :
    create (setLbInitialCallback allocate (some fun _ => 2)) twoTransports = .ok (made 2) ∧
      ¬ Lawful twoTransports (made 2) none twoSetUps := by
  refine ⟨rfl, fun h => ?_⟩
  have hread := (h.inRange 2 (by decide)).2
  revert hread
  decide

end Mama.LoadBalancing
