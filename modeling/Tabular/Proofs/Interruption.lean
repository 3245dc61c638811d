import Tabular.Proofs.Image
import Tabular.Proofs.Walk

/-!
Programs that a failure cuts short. An armed failure strikes in a call of a primitive or it changes
nothing (`Steady`), so a sequence that is cut is cut in its first part, or in its second part from
where the first has come to (`Cut.bind`). `CutsTo` says of a program what every cut of it leaves,
`CutsBy` says it by the primitive that fails, and there is a rule for each way to put programs
together.
-/

namespace Tabular

/-- The primitives that leave the store as it is. -/
def Primitive.looks : Primitive → Bool
  | keyType | get | hget | hgetall | hkeys | sismember | smembers | scan => true
  | set | del | incr | hset | hdel | sadd | srem => false

/-- A failure stays armed for fewer calls of its primitive, or it strikes in a call of it. -/
theorem Fault.onCall_cases (fault : Fault) (p : Primitive) :
    (∃ n, fault.onCall p = some ⟨fault.primitive, n⟩) ∨
      fault.onCall p = none ∧ fault.primitive = p := by
  obtain ⟨primitive, remaining⟩ := fault
  unfold onCall
  by_cases hp : primitive = p
  · cases remaining with
    | zero => exact Or.inr ⟨if_pos hp, hp⟩
    | succ n => exact Or.inl ⟨n, hp ▸ if_pos rfl⟩
  · exact Or.inl ⟨remaining, if_neg hp⟩

namespace StoreM

variable {α β : Type} {x p : StoreM α} {f : α → StoreM β}

/-- A failure that is armed before a program strikes in it. What the program has written by then is
in the store that it leaves. -/
def Cut (p : StoreM α) (s s' : Store) : Prop :=
  ∃ fault : Fault, p.exec ⟨s, some fault⟩ =
    (.error (.store (.injected fault.primitive)), ⟨s', none⟩)

/-! ### Armed failures -/

/-- A program arms no failure, and one that is armed before it strikes in it or changes nothing. -/
structure Steady (p : StoreM α) : Prop where
  calm : ∀ s, ∃ r s', p.exec ⟨s, none⟩ = (r, ⟨s', none⟩)
  armed : ∀ s fault, (∃ s', p.exec ⟨s, some fault⟩ =
      (.error (.store (.injected fault.primitive)), ⟨s', none⟩)) ∨
    ∃ r s' n, p.exec ⟨s, none⟩ = (r, ⟨s', none⟩) ∧
      p.exec ⟨s, some fault⟩ = (r, ⟨s', some ⟨fault.primitive, n⟩⟩)

/-- A failure that does not strike in a call changes nothing about it. -/
theorem exec_call_armed {fault fault' : Fault} {q : Primitive}
    {act : Store → Except StoreError (α × Store)} {s s' : Store} {r : Except Error α}
    (hfault : fault.onCall q = some fault') (h : (call q act).exec ⟨s, none⟩ = (r, ⟨s', none⟩)) :
    (call q act).exec ⟨s, some fault⟩ = (r, ⟨s', some fault'⟩) := by
  rw [exec_call] at h
  cases hact : act s with
  | error cause =>
      rw [hact] at h
      cases h
      simp only [exec, call, ExceptT.run_mk, StateT.run, Option.map_some, hfault, hact]
      rfl
  | ok out =>
      rw [hact] at h
      cases h
      simp only [exec, call, ExceptT.run_mk, StateT.run, Option.map_some, hfault, hact]
      rfl

/-- The primitive struck does nothing. -/
theorem exec_call_struck {fault : Fault} {q : Primitive}
    (act : Store → Except StoreError (α × Store)) (s : Store) (hfault : fault.onCall q = none) :
    (call q act).exec ⟨s, some fault⟩ = (.error (.store (.injected q)), ⟨s, none⟩) := by
  simp only [exec, call, ExceptT.run_mk, StateT.run, Option.map_some, hfault]

namespace Steady

theorem ret (a : α) : Steady (pure a : StoreM α) :=
  ⟨fun s => ⟨_, s, rfl⟩, fun s fault => Or.inr ⟨_, s, fault.remaining, rfl, rfl⟩⟩

theorem of_except (r : Except Error α) : Steady (ofExcept r) := by
  refine ⟨fun s => ⟨r, s, exec_ofExcept r _⟩, fun s fault => ?_⟩
  exact Or.inr ⟨r, s, fault.remaining, exec_ofExcept r _, exec_ofExcept r _⟩

theorem throw (e : Error) : Steady (throwThe Error e : StoreM α) := of_except (.error e)

theorem call (q : Primitive) (act : Store → Except StoreError (α × Store)) :
    Steady (call q act) := by
  have hcalm (s : Store) : ∃ r s', (StoreM.call q act).exec ⟨s, none⟩ = (r, ⟨s', none⟩) := by
    rw [exec_call]
    cases act s with
    | error cause => exact ⟨_, _, rfl⟩
    | ok out => exact ⟨_, _, rfl⟩
  refine ⟨hcalm, fun s fault => ?_⟩
  obtain ⟨r, s', hexec⟩ := hcalm s
  rcases fault.onCall_cases q with ⟨n, hfault⟩ | ⟨hfault, hq⟩
  · exact Or.inr ⟨r, s', n, hexec, exec_call_armed hfault hexec⟩
  · rw [hq]
    exact Or.inl ⟨s, exec_call_struck act s hfault⟩

theorem bind (hx : Steady x) (hf : ∀ a, Steady (f a)) : Steady (x >>= f) := by
  constructor
  · intro s
    obtain ⟨r, s', hexec⟩ := hx.calm s
    cases r with
    | error e => exact ⟨_, _, exec_bind_error hexec⟩
    | ok a =>
        obtain ⟨r, s'', hexec'⟩ := (hf a).calm s'
        exact ⟨r, s'', by rw [exec_bind_ok hexec, hexec']⟩
  · intro s fault
    rcases hx.armed s fault with ⟨s', hstruck⟩ | ⟨r, s', n, hexec, harmed⟩
    · exact Or.inl ⟨s', exec_bind_error hstruck⟩
    · cases r with
      | error e => exact Or.inr ⟨_, s', n, exec_bind_error hexec, exec_bind_error harmed⟩
      | ok a =>
          rw [exec_bind_ok hexec, exec_bind_ok harmed]
          exact (hf a).armed s' ⟨fault.primitive, n⟩

theorem forM {fields : List β} {g : β → StoreM Unit} (hg : ∀ b, Steady (g b)) :
    Steady (fields.forM g) := by
  induction fields with
  | nil => exact ret ()
  | cons b rest ih => exact (hg b).bind fun _ => ih

end Steady

/-! ### Cuts of a sequence -/

/-- A failure of the primitive is armed before the program and strikes in it. -/
def CutBy (q : Primitive) (p : StoreM α) (s s' : Store) : Prop :=
  ∃ n, p.exec ⟨s, some ⟨q, n⟩⟩ = (.error (.store (.injected q)), ⟨s', none⟩)

theorem cut_iff {s s' : Store} : Cut p s s' ↔ ∃ q, CutBy q p s s' :=
  ⟨fun ⟨fault, h⟩ => ⟨fault.primitive, fault.remaining, h⟩, fun ⟨q, n, h⟩ => ⟨⟨q, n⟩, h⟩⟩

namespace CutBy

variable {q : Primitive} {s s' : Store}

theorem of_pure {a : α} (h : CutBy q (pure a : StoreM α) s s') : False := by
  obtain ⟨n, h⟩ := h
  cases h

theorem of_ofExcept {r : Except Error α} (h : CutBy q (ofExcept r) s s') : False := by
  obtain ⟨n, h⟩ := h
  rw [exec_ofExcept] at h
  cases (Prod.mk.inj h).2

theorem of_throw {e : Error} (h : CutBy q (throwThe Error e : StoreM α) s s') : False :=
  of_ofExcept (r := .error e) h

/-- A primitive that is struck leaves the store as it was. -/
theorem of_call {q' : Primitive} {act : Store → Except StoreError (α × Store)}
    (h : CutBy q (call q' act) s s') : q' = q ∧ s' = s := by
  obtain ⟨n, h⟩ := h
  rcases Fault.onCall_cases ⟨q, n⟩ q' with ⟨m, hfault⟩ | ⟨hfault, hq⟩
  · obtain ⟨r, s'', hexec⟩ := (Steady.call q' act).calm s
    rw [exec_call_armed hfault hexec] at h
    cases (Prod.mk.inj h).2
  · rw [exec_call_struck act s hfault] at h
    cases (Prod.mk.inj h).2
    exact ⟨hq.symm, rfl⟩

/-- A sequence is cut in its first part, or in its second from where the first has come to. -/
theorem bind (hx : Steady x) (h : CutBy q (x >>= f) s s') :
    CutBy q x s s' ∨ ∃ a s₁, x.exec ⟨s, none⟩ = (.ok a, ⟨s₁, none⟩) ∧ CutBy q (f a) s₁ s' := by
  obtain ⟨n, h⟩ := h
  rcases hx.armed s ⟨q, n⟩ with ⟨s₁, hstruck⟩ | ⟨r, s₁, m, hexec, harmed⟩
  · rw [exec_bind_error hstruck] at h
    rw [(Session.mk.inj (Prod.mk.inj h).2).1] at hstruck
    exact Or.inl ⟨n, hstruck⟩
  · cases r with
    | error e =>
        rw [exec_bind_error harmed] at h
        cases (Prod.mk.inj h).2
    | ok a =>
        rw [exec_bind_ok harmed] at h
        exact Or.inr ⟨a, s₁, hexec, m, h⟩

end CutBy

namespace Cut

variable {s s' : Store}

theorem of_pure {a : α} (h : Cut (pure a : StoreM α) s s') : False := by
  obtain ⟨q, h⟩ := cut_iff.mp h
  exact h.of_pure

theorem of_throw {e : Error} (h : Cut (throwThe Error e : StoreM α) s s') : False := by
  obtain ⟨q, h⟩ := cut_iff.mp h
  exact h.of_throw

theorem of_call {q : Primitive} {act : Store → Except StoreError (α × Store)}
    (h : Cut (call q act) s s') : s' = s := by
  obtain ⟨q', h⟩ := cut_iff.mp h
  exact h.of_call.2

theorem bind (hx : Steady x) (h : Cut (x >>= f) s s') :
    Cut x s s' ∨ ∃ a s₁, x.exec ⟨s, none⟩ = (.ok a, ⟨s₁, none⟩) ∧ Cut (f a) s₁ s' := by
  obtain ⟨q, h⟩ := cut_iff.mp h
  rcases h.bind hx with h | ⟨a, s₁, hexec, h⟩
  · exact Or.inl (cut_iff.mpr ⟨q, h⟩)
  · exact Or.inr ⟨a, s₁, hexec, cut_iff.mpr ⟨q, h⟩⟩

end Cut

/-! ### Programs that only look -/

/-- The program calls only primitives that look. So it leaves the store as it is, whether a failure
strikes in it or not. -/
structure Reads (p : StoreM α) : Prop where
  steady : Steady p
  store : ∀ σ, (p.exec σ).2.store = σ.store
  struck : ∀ {q s s'}, CutBy q p s s' → q.looks = true

namespace Reads

theorem ret (a : α) : Reads (pure a : StoreM α) :=
  ⟨Steady.ret a, fun _ => rfl, fun h => h.of_pure.elim⟩

theorem of_except (r : Except Error α) : Reads (ofExcept r) :=
  ⟨Steady.of_except r, fun σ => by rw [exec_ofExcept], fun h => h.of_ofExcept.elim⟩

theorem throw (e : Error) : Reads (throwThe Error e : StoreM α) := of_except (.error e)

theorem bind (hx : Reads x) (hf : ∀ a, Reads (f a)) : Reads (x >>= f) := by
  refine ⟨hx.steady.bind fun a => (hf a).steady, fun σ => ?_, fun h => ?_⟩
  · have hstore := hx.store σ
    rcases hexec : x.exec σ with ⟨_ | a, σ'⟩
    · rw [exec_bind_error hexec, ← hstore, hexec]
    · rw [exec_bind_ok hexec, (hf a).store σ', ← hstore, hexec]
  · rcases h.bind hx.steady with h | ⟨a, s₁, -, h⟩
    · exact hx.struck h
    · exact (hf a).struck h

theorem look (q : Primitive) (view : Store → Except StoreError α)
    (hq : q.looks = true) : Reads (look q view) := by
  refine ⟨Steady.call q _, fun ⟨s, fault⟩ => ?_, fun h => h.of_call.1 ▸ hq⟩
  have hnone : ((StoreM.look q view).exec ⟨s, none⟩).2 = ⟨s, none⟩ := by rw [exec_look]
  cases fault with
  | none => rw [hnone]
  | some fault =>
      rcases fault.onCall_cases q with ⟨n, hfault⟩ | ⟨hfault, -⟩
      · have harmed : (StoreM.look q view).exec ⟨s, some fault⟩ = (_, ⟨s, some _⟩) :=
          exec_call_armed hfault (Prod.ext rfl hnone)
        exact congrArg (fun out => out.2.store) harmed
      · have hstruck := exec_call_struck (fun s => (view s).map (·, s)) s hfault
        exact congrArg (fun out => out.2.store) hstruck

theorem cut {s s' : Store} (hp : Reads p) (h : Cut p s s') : s' = s := by
  obtain ⟨fault, h⟩ := h
  have hstore := hp.store ⟨s, some fault⟩
  rw [h] at hstore
  exact hstore

end Reads

/-! ### What cuts leave -/

/-- Every cut of a program on an image of a table leaves an image with a property that goes by the
primitive that is struck. -/
def CutsBy (p : StoreM α) (t : TableName) (l : Layout) (img : Image)
    (I : Primitive → Image → Prop) : Prop :=
  ∀ q s s', s.Holds (img.on t l) → CutBy q p s s' → ∃ img', I q img' ∧ s'.Holds (img'.on t l)

namespace CutsBy

variable {t : TableName} {l : Layout} {img img' : Image} {I I' : Primitive → Image → Prop} {a : α}

theorem ret (a : α) : CutsBy (pure a) t l img I := fun _ _ _ _ h => h.of_pure.elim

theorem call {q : Primitive} (himg : I q img) (act : Store → Except StoreError (α × Store)) :
    CutsBy (call q act) t l img I := by
  intro q' s s' hs h
  obtain ⟨rfl, rfl⟩ := h.of_call
  exact ⟨img, himg, hs⟩

theorem reads (himg : ∀ q : Primitive, q.looks = true → I q img) (hp : Reads p) :
    CutsBy p t l img I :=
  fun q _ _ hs h => ⟨img, himg q (hp.struck h), hp.cut (cut_iff.mpr ⟨q, h⟩) ▸ hs⟩

theorem mono (h : CutsBy p t l img I) (himp : ∀ q img, I q img → I' q img) :
    CutsBy p t l img I' := by
  intro q s s' hs hcut
  obtain ⟨img', himg', hs'⟩ := h q s s' hs hcut
  exact ⟨img', himp q img' himg', hs'⟩

/-- A sequence is cut in its first part, or from where that leaves it if it succeeds. -/
theorem seq {r : Except Error α} (hsteady : Steady x) (hx : CutsBy x t l img I)
    (hrun : Runs x (img.on t l) r (img'.on t l)) (hf : ∀ a, r = .ok a → CutsBy (f a) t l img' I) :
    CutsBy (x >>= f) t l img I := by
  intro q s s' hs h
  rcases h.bind hsteady with h | ⟨a, s₁, hexec, h⟩
  · exact hx q s s' hs h
  · obtain ⟨s₂, hexec', hs₂⟩ := hrun s hs
    rw [hexec] at hexec'
    obtain ⟨hr, hσ⟩ := Prod.mk.inj hexec'
    obtain ⟨rfl, -⟩ := Session.mk.inj hσ
    exact hf a hr.symm q s₁ s' hs₂ h

theorem bind (hsteady : Steady x) (hx : CutsBy x t l img I)
    (hrun : Runs x (img.on t l) (.ok a) (img'.on t l)) (hf : CutsBy (f a) t l img' I) :
    CutsBy (x >>= f) t l img I := by
  refine seq hsteady hx hrun fun a' ha => ?_
  obtain rfl := Except.ok.inj ha
  exact hf

/-- A result that is turned into another one at the end makes no difference. -/
theorem map (hsteady : Steady x) (hx : CutsBy x t l img I) (g : α → β) :
    CutsBy (x >>= fun a => pure (g a)) t l img I := by
  intro q s s' hs h
  rcases h.bind hsteady with h | ⟨a, s₁, -, h⟩
  · exact hx q s s' hs h
  · exact h.of_pure.elim

/-- A sequence that begins with a look at the store is cut where nothing has changed, or later. -/
theorem look (himg : ∀ q : Primitive, q.looks = true → I q img) (hx : Reads x)
    (hrun : Runs x (img.on t l) (.ok a) (img.on t l)) (hf : CutsBy (f a) t l img I) :
    CutsBy (x >>= f) t l img I :=
  bind hx.steady (reads himg hx) hrun hf

/-- A sequence that begins with a call is cut there, where nothing has changed, or later. -/
theorem step {q : Primitive} {act : Store → Except StoreError (β × Store)} {b : β}
    {g : β → StoreM α} (himg : I q img)
    (hrun : Runs (StoreM.call q act) (img.on t l) (.ok b) (img'.on t l))
    (hg : CutsBy (g b) t l img' I) : CutsBy (StoreM.call q act >>= g) t l img I :=
  bind (Steady.call q act) (call himg act) hrun hg

/-- A failure is not cut. -/
theorem fail (e : Error) : CutsBy (throwThe Error e >>= f) t l img I := by
  intro q s s' hs h
  rcases h.bind (Steady.throw e) with h | ⟨a, s₁, hexec, -⟩
  · exact h.of_throw.elim
  · cases hexec

end CutsBy

/-- Every cut of a program on an image of a table leaves an image with a property. -/
def CutsTo (p : StoreM α) (t : TableName) (l : Layout) (img : Image) (I : Image → Prop) : Prop :=
  ∀ s s', s.Holds (img.on t l) → p.Cut s s' → ∃ img', I img' ∧ s'.Holds (img'.on t l)

theorem cutsTo_iff {t : TableName} {l : Layout} {img : Image} {I : Image → Prop} :
    CutsTo p t l img I ↔ CutsBy p t l img fun _ => I :=
  ⟨fun h q s s' hs hcut => h s s' hs (cut_iff.mpr ⟨q, hcut⟩), fun h s s' hs hcut => by
    obtain ⟨q, hcut⟩ := cut_iff.mp hcut
    exact h q s s' hs hcut⟩

namespace CutsTo

variable {t : TableName} {l : Layout} {img img' : Image} {I I' : Image → Prop} {a : α}

theorem ret (a : α) : CutsTo (pure a) t l img I := cutsTo_iff.mpr (CutsBy.ret a)

theorem call (himg : I img) (q : Primitive) (act : Store → Except StoreError (α × Store)) :
    CutsTo (call q act) t l img I := cutsTo_iff.mpr (CutsBy.call himg act)

theorem reads (himg : I img) (hp : Reads p) : CutsTo p t l img I :=
  cutsTo_iff.mpr (CutsBy.reads (fun _ _ => himg) hp)

theorem mono (h : CutsTo p t l img I) (himp : ∀ img, I img → I' img) : CutsTo p t l img I' :=
  cutsTo_iff.mpr ((cutsTo_iff.mp h).mono fun _ => himp)

theorem seq {r : Except Error α} (hsteady : Steady x) (hx : CutsTo x t l img I)
    (hrun : Runs x (img.on t l) r (img'.on t l)) (hf : ∀ a, r = .ok a → CutsTo (f a) t l img' I) :
    CutsTo (x >>= f) t l img I :=
  cutsTo_iff.mpr (CutsBy.seq hsteady (cutsTo_iff.mp hx) hrun fun a ha => cutsTo_iff.mp (hf a ha))

theorem bind (hsteady : Steady x) (hx : CutsTo x t l img I)
    (hrun : Runs x (img.on t l) (.ok a) (img'.on t l)) (hf : CutsTo (f a) t l img' I) :
    CutsTo (x >>= f) t l img I :=
  cutsTo_iff.mpr (CutsBy.bind hsteady (cutsTo_iff.mp hx) hrun (cutsTo_iff.mp hf))

theorem map (hsteady : Steady x) (hx : CutsTo x t l img I) (g : α → β) :
    CutsTo (x >>= fun a => pure (g a)) t l img I :=
  cutsTo_iff.mpr (CutsBy.map hsteady (cutsTo_iff.mp hx) g)

/-- A sequence that begins with a look at the store is cut where nothing has changed, or later. -/
theorem look (himg : I img) (hx : Reads x) (hrun : Runs x (img.on t l) (.ok a) (img.on t l))
    (hf : CutsTo (f a) t l img I) : CutsTo (x >>= f) t l img I :=
  bind hx.steady (reads himg hx) hrun hf

/-- A sequence that begins with a call is cut there, where nothing has changed, or later. -/
theorem step {q : Primitive} {act : Store → Except StoreError (β × Store)} {b : β}
    {g : β → StoreM α} (himg : I img)
    (hrun : Runs (StoreM.call q act) (img.on t l) (.ok b) (img'.on t l))
    (hg : CutsTo (g b) t l img' I) : CutsTo (StoreM.call q act >>= g) t l img I :=
  bind (Steady.call q act) (call himg q act) hrun hg

/-- A sequence that begins with a check is cut where nothing has changed, or after the check has
succeeded. -/
theorem check {r : Except Error α} (himg : I img) (hx : Reads x)
    (hrun : Runs x (img.on t l) r (img.on t l)) (hf : ∀ a, r = .ok a → CutsTo (f a) t l img I) :
    CutsTo (x >>= f) t l img I :=
  seq hx.steady (reads himg hx) hrun hf

theorem fail (e : Error) : CutsTo (throwThe Error e >>= f) t l img I :=
  cutsTo_iff.mpr (CutsBy.fail e)

end CutsTo

/-! ### Cuts of walks and deletions -/

theorem reads_matchingKeys (pattern : String) (pageSize : Nat) :
    Reads (matchingKeys pattern pageSize) := by
  have hgather : ∀ pages (walk : Walk), Reads (Walk.gather pages walk) := by
    intro pages
    induction pages with
    | zero => exact fun walk => Reads.ret []
    | succ pages ih =>
        intro walk
        rw [Walk.gather]
        split
        · exact Reads.ret []
        · refine Reads.bind ?_ fun out => (ih out.2).bind fun _ => Reads.ret _
          exact (Reads.look _ _ rfl).bind fun _ => Reads.ret _
  have hpages : Reads (liftM maxPages : StoreM Nat) :=
    ⟨⟨fun s => ⟨_, s, rfl⟩, fun s fault => Or.inr ⟨_, s, fault.remaining, rfl, rfl⟩⟩, fun _ => rfl,
      fun h => h.elim fun _ h => by cases congrArg (·.2.fault) h⟩
  exact hpages.bind fun pages => hgather pages _

theorem steady_delAll (keys : List String) : Steady (delAll keys) := by
  induction keys with
  | nil => exact Steady.ret 0
  | cons key rest ih => exact (Steady.call _ _).bind fun _ => ih.bind fun _ => Steady.ret _

theorem steady_delMatching (pattern : String) (pageSize : Nat) :
    Steady (delMatching pattern pageSize) :=
  (reads_matchingKeys pattern pageSize).steady.bind steady_delAll

/-- Keys are deleted from the first one on. -/
theorem Cut.of_delAll {keys : List String} {s s' : Store} (h : Cut (delAll keys) s s') :
    ∃ gone, gone <+: keys ∧ s' = OrderedMap.filter (fun key => decide (key ∉ gone)) s := by
  induction keys generalizing s with
  | nil => exact h.of_pure.elim
  | cons key rest ih =>
      have hnone : OrderedMap.filter (fun key => decide (key ∉ ([] : List String))) s = s := by
        ext key
        simp
      rcases h.bind (Steady.call _ _) with h | ⟨found, s₁, hexec, h⟩
      · exact ⟨[], List.nil_prefix, by rw [hnone, h.of_call]⟩
      · have hstore : s₁ = s.erase key := by
          change (call .del fun s => .ok (s.del key)).exec ⟨s, none⟩ = _ at hexec
          rw [exec_call] at hexec
          exact (Session.mk.inj (Prod.mk.inj hexec).2).1.symm
        rcases h.bind (steady_delAll rest) with h | ⟨n, s₂, -, h⟩
        · obtain ⟨gone, hgone, rfl⟩ := ih h
          refine ⟨key :: gone, List.cons_prefix_cons.mpr ⟨rfl, hgone⟩, ?_⟩
          rw [hstore]
          apply OrderedMap.ext
          intro x
          by_cases hx : x = key <;> by_cases hxg : x ∈ gone <;> simp [hx, hxg]
        · exact h.of_pure.elim

/-- A cut deletion by pattern has deleted some of the keys that match, and no other key. -/
theorem Cut.of_delMatching {pattern : String} {pageSize : Nat} {s s' : Store}
    (h : Cut (delMatching pattern pageSize) s s') :
    ∃ gone : String → Bool, (∀ key, gone key = true → Glob.matchesKey pattern key = true) ∧
      s' = OrderedMap.filter (fun key => !gone key) s := by
  rcases h.bind (reads_matchingKeys pattern pageSize).steady with h | ⟨keys, s₁, hexec, h⟩
  · refine ⟨fun _ => false, fun _ => Bool.noConfusion, ?_⟩
    rw [(reads_matchingKeys pattern pageSize).cut h]
    ext key : 1
    simp
  · rw [exec_matchingKeys] at hexec
    obtain ⟨hkeys, hσ⟩ := Prod.mk.inj hexec
    obtain ⟨rfl, -⟩ := Session.mk.inj hσ
    obtain rfl := Except.ok.inj hkeys
    obtain ⟨gone, hgone, rfl⟩ := h.of_delAll
    refine ⟨fun key => decide (key ∈ gone), fun key hkey => ?_, ?_⟩
    · exact (List.mem_filter.mp (hgone.subset (of_decide_eq_true hkey))).2
    · simp only [decide_not]

end StoreM

/-- Without some of its keys a store holds the layout without them. -/
theorem Store.Holds.filter {s : Store} {l : Layout} (h : s.Holds l) (gone : String → Bool) :
    Store.Holds (OrderedMap.filter (fun key => !gone key) s)
      (fun k => if gone k.text then none else l k) := by
  refine ⟨fun {k} hk => ?_, fun {x} hx => ?_⟩
  · rw [OrderedMap.get?_filter, h.lookup hk]
    cases gone k.text <;> rfl
  · rw [OrderedMap.get?_filter, h.only hx]
    split <;> rfl

namespace Image

variable {t : TableName} {l : Layout}

/-- The image in which some of the keys with the name of the table in braces are empty. -/
def without (img : Image) (t : TableName) (gone : Key → Bool) : Image where
  types := img.types
  indexed := if gone (.indexed t) then ∅ else img.indexed
  last := if gone (.counter t) then 0 else img.last
  members := if gone (.rows t) then ∅ else img.members
  row id := if gone (.row t id) then ∅ else img.row id
  index at_ := if gone (.index t at_.1 at_.2) then ∅ else img.index at_

theorem on_without (img : Image) {gone : Key → Bool} {k : Key}
    (hgone : gone k = true → k.tag? = some t) :
    (img.without t gone).on t l k = if gone k then none else img.on t l k := by
  by_cases hk : k.table? = some t
  · rw [on_of_table hk, on_of_table hk]
    cases k with
    | marker ns => cases hk
    | schema t' =>
        have hnot : gone (.schema t') ≠ true := fun h => by cases hgone h
        rw [if_neg hnot]
        rfl
    | _ =>
        obtain rfl := Option.some.inj hk
        simp only [entry, without]
        split <;> rfl
  · have hnot : gone k ≠ true := fun h => hk (Key.table?_of_tag? (hgone h))
    rw [on_of_ne hk, on_of_ne hk, if_neg hnot]

end Image

open Classical in
/-- A cut deletion of keys that all have the name of a table in braces. -/
theorem StoreM.cutsTo_delMatching {t : TableName} {l : Layout} (img : Image) {pattern : String}
    (pageSize : Nat) (hpattern : ∀ k : Key, k.Proper → Glob.matchesKey pattern k.text = true →
      k.tag? = some t) :
    CutsTo (delMatching pattern pageSize) t l img fun img' => ∃ gone : Key → Bool,
      (∀ k, gone k = true → k.Proper ∧ Glob.matchesKey pattern k.text = true) ∧
        img' = img.without t gone := by
  intro s s' hs h
  obtain ⟨gone, hgone, rfl⟩ := h.of_delMatching
  refine ⟨_, ⟨fun k => decide (k.Proper ∧ gone k.text = true), fun k hk => ?_, rfl⟩, ?_⟩
  · exact (of_decide_eq_true hk).imp_right (hgone k.text)
  · refine (hs.filter gone).congr fun k hk => ?_
    rw [Image.on_without img fun h => ?_]
    · simp only [hk, true_and, Bool.decide_eq_true]
    · obtain ⟨hk', hmatch⟩ := of_decide_eq_true h
      exact hpattern k hk' (hgone k.text hmatch)

end Tabular
