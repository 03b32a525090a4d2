import CANnuccia.BxCanCalls
import CANnuccia.Bus

/-!
# The initialization of bxCAN

The first call of `cnCANInit` sets the controller up, later ones only change the filter,
while frames arrive. Some of their writes do nothing.
-/
namespace CANnuccia.BxCan

open Util CanMsgs
open Masks (flag)
open Stm32Can (Mailbox)
open Mealy (Machine Transition Run outputs)

/-- Bank 0 takes frames. -/
def Setup.active (k : Setup) : Bool := k.fa1r.getLsbD 0

/-- If bank 0 is active after an access, it is as it was before or as the call wants it. -/
structure Edits (id mask : U32) (k k' : Setup) : Prop where
  whole : k'.active = true → (k.active = true ∧ k'.filter 0 = k.filter 0) ∨ k'.filter 0 = (id, mask)
  banks : ∀ n ≠ 0, k'.filter n = k.filter n

/-- What an access of a call changes. -/
structure Configures (id mask : U32) (s s' : Controller) : Prop where
  edits : Edits id mask s.setup s'.setup
  others : { s' with setup := s.setup } = s

variable {s s' : Controller} {k : Setup} {i : Bool} {id mask : U32}

/-- Nothing about the banks changes. -/
theorem Edits.same {k' : Setup} (hfa1r : k'.fa1r = k.fa1r) (hfilter : k'.filter = k.filter) :
    Edits id mask k k' where
  whole h := by
    rw [Setup.active, hfa1r] at h
    exact .inl ⟨h, by rw [hfilter]⟩
  banks n _ := by rw [hfilter]

theorem Configures.same (s : Controller) : Configures id mask s s := ⟨.same rfl rfl, rfl⟩

theorem moves_setup (h : Moves s s') : s'.setup = s.setup := by
  cases h with
  | arrive m _ _ =>
    rw [Controller.arrive]
    split <;> rfl
  | complete n _ => rfl
  | ack => rfl

/-- The setup, and if `i`, initialization mode. -/
def At (k : Setup) (i : Bool) (s : Controller) : Prop := s.setup = k ∧ (i = true → s.inak = true)

/-- Initialization mode is not left before INRQ is cleared. -/
theorem at_stable (h : i = true → k.mcr &&& canMcrInrq ≠ 0) : Mmio.Stable Moves (At k i) := by
  rintro s s' ⟨rfl, hinak⟩ hm
  refine ⟨moves_setup hm, fun hi => ?_⟩
  cases hm with
  | arrive m _ _ =>
    rw [Controller.arrive]
    split <;> exact hinak hi
  | complete n _ => exact hinak hi
  | ack => exact decide_eq_true (h hi)

/-- The registers that are assigned to with `|=`, `&=` or `=`. -/
def Reg.config : Reg → Bool
  | .msr | .tsr | .rf0r | .outbox _ _ | .inbox _ => false
  | _ => true

/-- A register is read, changed and written. -/
def Setup.modify (i : Bool) (reg : Reg) (g : U32 → U32) (k : Setup) : Setup :=
  k.write i reg (g (k.read reg))

section Accesses

variable {reg : Reg} {α : Type} {post : α → Controller → Prop}

theorem read_config (hreg : reg.config = true) (h : At k i s) :
    device.read reg s = k.read reg := by
  rw [← h.1]
  cases reg <;> first | rfl | cases hreg

theorem write_config (hreg : reg.config = true) (v : U32) (hbtr : reg = .btr → i = true)
    (h : At k i s) : At (k.write i reg v) i (device.write reg v s) ∧
      { device.write reg v s with setup := s.setup } = s := by
  obtain ⟨rfl, hinak⟩ := h
  have hsame : reg ≠ .btr → s.setup.write s.inak reg v = s.setup.write i reg v := by
    intro hne
    cases reg <;> first | rfl | contradiction
  by_cases he : reg = .btr
  · subst he
    have hi := hbtr rfl
    have hs := hinak hi
    refine ⟨⟨?_, hinak⟩, rfl⟩
    rw [hi, ← hs]
    rfl
  · rw [← hsame he]
    cases reg <;> first | exact ⟨⟨rfl, hinak⟩, rfl⟩ | cases hreg

theorem store_config (h : At k i s) (hreg : reg.config = true) (v : U32)
    (hbtr : reg = .btr → i = true) (hinrq : i = true → k.mcr &&& canMcrInrq ≠ 0)
    (hedits : Edits id mask k (k.write i reg v)) : Mmio.Meets device Moves (Configures id mask)
      (fun _ s => At (k.write i reg v) i s) (Mmio.store reg v) s := by
  refine Mmio.meets_write (at_stable hinrq) h fun s hs => ?_
  obtain ⟨hat, hothers⟩ := write_config hreg v hbtr hs
  refine ⟨⟨?_, hothers⟩, hat⟩
  rw [hs.1, hat.1]
  exact hedits

theorem modify_config (h : At k i s) (hreg : reg.config = true) (g : U32 → U32) (hne : reg ≠ .btr)
    (hinrq : i = true → k.mcr &&& canMcrInrq ≠ 0)
    (hedits : Edits id mask k (k.modify i reg g)) :
    Mmio.Meets device Moves (Configures id mask)
      (fun _ s => At (k.modify i reg g) i s) (Mmio.modify reg g) s := by
  refine Mmio.meets_read (at_stable hinrq) h fun s hs => ⟨.same s, ?_⟩
  rw [read_config hreg hs]
  exact store_config hs hreg _ (fun he => absurd he hne) hinrq hedits

end Accesses

/-- Bank 0 is inactive after the access. -/
theorem Edits.inactive {k' : Setup} (h : k'.active = false)
    (hbanks : ∀ n ≠ 0, k'.filter n = k.filter n) : Edits id mask k k' where
  whole hactive := by
    rw [h] at hactive
    cases hactive
  banks := hbanks

/-- The registers of the banks. -/
def Reg.bank : Reg → Bool
  | .fa1r | .filterR1 _ | .filterR2 _ => true
  | _ => false

section Write

variable {reg : Reg} {v : U32}

theorem write_banks (h : reg.bank = false) :
    (k.write i reg v).fa1r = k.fa1r ∧ (k.write i reg v).filter = k.filter := by
  cases reg with
  | fa1r | filterR1 n | filterR2 n => cases h
  | btr | fm1r | fs1r | ffa1r =>
    rw [Setup.write]
    split <;> exact ⟨rfl, rfl⟩
  | _ => exact ⟨rfl, rfl⟩

theorem modify_mcr {g : U32 → U32} (h : reg ≠ .mcr) : (k.modify i reg g).mcr = k.mcr := by
  rw [Setup.modify]
  cases reg with
  | mcr => contradiction
  | btr | fm1r | fs1r | ffa1r | filterR1 n | filterR2 n =>
    rw [Setup.write]
    split <;> rfl
  | _ => rfl

/-- An access elsewhere. -/
theorem modify_quiet (h : At k i s) (hreg : reg.config = true) (g : U32 → U32)
    (hbank : reg.bank = false) (hne : reg ≠ .btr) (hinrq : i = true → k.mcr &&& canMcrInrq ≠ 0) :
    Mmio.Meets device Moves (Configures id mask)
      (fun _ s => At (k.modify i reg g) i s) (Mmio.modify reg g) s :=
  modify_config h hreg g hne hinrq (.same (write_banks hbank).1 (write_banks hbank).2)

end Write

/-- A setup with bank 0 switched off. -/
def Setup.off (k : Setup) : Setup := { k with fa1r := k.fa1r &&& ~~~1#32 }

/-- With the bits that the bank has in the other registers. -/
def Setup.bits (k : Setup) : Setup :=
  { k with
    fm1r := if k.finit then k.fm1r &&& ~~~1#32 else k.fm1r
    fs1r := if k.finit then k.fs1r ||| 1#32 else k.fs1r
    ffa1r := if k.finit then k.ffa1r &&& ~~~1#32 else k.ffa1r }

def Setup.edited (id mask : U32) (k : Setup) : Setup :=
  { k with filter := Function.update k.filter 0 (id, mask) }

def Setup.on (k : Setup) : Setup := { k with fa1r := k.fa1r ||| 1#32 }

/-- What `initCANFilter` makes of a setup. -/
def Setup.bank0 (id mask : U32) (k : Setup) : Setup := (k.off.bits.edited id mask).on

theorem off_active (k : Setup) : k.off.active = false := by
  simp [Setup.off, Setup.active]

theorem modify_bits (k : Setup) :
    ((k.modify i .fm1r fun v => v &&& ~~~(1#32 <<< 0)).modify i .fs1r fun v =>
      v ||| 1#32 <<< 0).modify i .ffa1r (fun v => v &&& ~~~(1#32 <<< 0)) = k.bits := by
  cases hf : k.finit with
  | true => simp_all [Setup.modify, Setup.write, Setup.read, Setup.bits, Setup.finit]
  | false => simp [Setup.modify, Setup.write, Setup.bits, hf]

/-- An inactive bank is edited. -/
theorem inactive_editable (h : k.active = false) : k.editable 0 = true := by
  rw [Setup.editable, ← Setup.active, h]
  simp

theorem write_r1 (h : k.active = false) :
    k.write i (.filterR1 0) id = k.edited id (k.filter 0).2 := if_pos (inactive_editable h)

theorem write_r2 (h : k.active = false) :
    k.write i (.filterR2 0) mask = k.edited (k.filter 0).1 mask := if_pos (inactive_editable h)

theorem edited_edits {id' mask' : U32} (h : k.active = false) :
    Edits id mask k (k.edited id' mask') :=
  .inactive h fun _ hn => Function.update_of_ne hn ..

theorem initCANFilter_meets (id mask : U32) (hinrq : i = true → k.mcr &&& canMcrInrq ≠ 0)
    (h : At k i s) : Mmio.Meets device Moves (Configures id mask)
      (fun _ s => At (k.bank0 id mask) i s) (initCANFilter 0 id mask) s := by
  have hoff : k.off.bits.active = false := off_active k
  refine (modify_config h rfl _ (by decide) hinrq ?_).seq fun _ s h => ?_
  · exact .inactive (off_active k) fun _ _ => rfl
  refine (modify_quiet h rfl _ rfl (by decide) hinrq).seq fun _ s h => ?_
  refine (modify_quiet h rfl _ rfl (by decide) ?_).seq fun _ s h => ?_
  · rwa [modify_mcr (by decide)]
  refine (modify_quiet h rfl _ rfl (by decide) ?_).seq fun _ s h => ?_
  · rwa [modify_mcr (by decide), modify_mcr (by decide)]
  have hbits : At k.off.bits i s := by
    rw [← modify_bits]
    exact h
  refine (store_config hbits rfl id (by simp) hinrq ?_).seq fun _ s h => ?_
  · rw [write_r1 hoff]
    exact edited_edits hoff
  rw [write_r1 hoff] at h
  have hoff' : ∀ id' mask', (k.off.bits.edited id' mask').active = false := fun _ _ => hoff
  refine (store_config h rfl mask (by simp) hinrq ?_).seq fun _ s h => ?_
  · rw [write_r2 (hoff' _ _)]
    exact edited_edits (hoff' _ _)
  have hedited : At (k.off.bits.edited id mask) i s := by
    rw [write_r2 (hoff' _ _)] at h
    simpa [Setup.edited] using h
  refine (modify_config hedited rfl _ (by decide) hinrq ?_).mono fun _ s h => h
  have hfilter : (k.bank0 id mask).filter 0 = (id, mask) := by
    simp [Setup.bank0, Setup.on, Setup.edited]
  exact ⟨fun _ => .inr hfilter, fun _ _ => rfl⟩

def wired (ports : Port → U32) : Port → U32
  | .rccApb1enr => ports .rccApb1enr ||| 0x02000000#32
  | .rccApb2enr => ports .rccApb2enr ||| (0x00000008#32 ||| 0x00000001#32)
  | .afioMapr => ports .afioMapr ||| 0x00004000#32
  | .gpiobCrh => ports .gpiobCrh ||| 0x94#32

/-- After a call: bank 0 is a 32-bit mask for FIFO 0, and the only one that is active. -/
def configured (filter : Nat → U32 × U32) (ports : Port → U32) (id mask : U32) : Setup where
  mcr := 0x00010060#32
  btr := 0x00050008#32
  fmr := 0x2A1C0E00#32
  fm1r := 0
  fs1r := 1
  ffa1r := 0
  fa1r := 1
  filter := Function.update filter 0 (id, mask)
  ports := wired ports

variable {filter : Nat → U32 × U32} {ports : Port → U32}

/-- When the controller is asked to enter initialization mode. -/
def asked (filter : Nat → U32 × U32) (ports : Port → U32) : Setup :=
  { resetSetup filter ports with mcr := 0x00010003#32, ports := wired ports }

theorem first_asked : ((((((resetSetup filter ports).modify false (.port .rccApb2enr) fun v =>
    v ||| (0x00000008#32 ||| 0x00000001#32)).modify false (.port .afioMapr) fun v =>
      v ||| 0x00004000#32).modify false (.port .gpiobCrh) fun v =>
        v ||| 0x94#32).modify false (.port .rccApb1enr) fun v =>
          v ||| 0x02000000#32).modify false .mcr fun v => v ||| canMcrInrq) =
    asked filter ports := by
  have hports : Function.update (Function.update (Function.update (Function.update ports
      .rccApb2enr (ports .rccApb2enr ||| (0x00000008#32 ||| 0x00000001#32)))
      .afioMapr (ports .afioMapr ||| 0x00004000#32))
      .gpiobCrh (ports .gpiobCrh ||| 0x94#32))
      .rccApb1enr (ports .rccApb1enr ||| 0x02000000#32) = wired ports := by
    funext p
    cases p <;> simp [Function.update, wired]
  simp [Setup.modify, Setup.write, Setup.read, resetSetup, asked, canMcrInrq, ← hports]

/-- After a reset the filters can be initialized. -/
theorem asked_finit : (asked filter ports).modify true .fmr (fun v => v ||| canFmrFinit) =
    asked filter ports := by
  have hfmr : 0x2A1C0E01#32 ||| canFmrFinit = 0x2A1C0E01#32 := by decide
  have hread : (asked filter ports).read .fmr = 0x2A1C0E01#32 := rfl
  rw [Setup.modify, hread, hfmr]
  rfl

/-- The setup, and initialization mode is left. -/
def Awake (k : Setup) (s : Controller) : Prop := s.setup = k ∧ s.inak = false

/-- It is not entered unless INRQ is set. -/
theorem awake_stable (h : k.mcr &&& canMcrInrq = 0) : Mmio.Stable Moves (Awake k) := by
  rintro s s' ⟨rfl, hinak⟩ hm
  refine ⟨moves_setup hm, ?_⟩
  cases hm with
  | arrive m _ _ =>
    rw [Controller.arrive]
    split <;> exact hinak
  | complete n _ => exact hinak
  | ack => exact decide_eq_false (not_not.mpr h)

theorem modify_awake {g : U32 → U32} (h : Awake k s) (hinrq : k.mcr &&& canMcrInrq = 0) :
    Mmio.Meets device Moves (Configures id mask) (fun _ s => Awake (k.modify false .mcr g) s)
      (Mmio.modify .mcr g) s := by
  refine Mmio.meets_read (awake_stable hinrq) h fun s h => ⟨.same s, ?_⟩
  have hread : device.read .mcr s = k.mcr := congrArg Setup.mcr h.1
  refine Mmio.meets_write (awake_stable hinrq) h fun s h => ?_
  rw [hread]
  obtain ⟨rfl, hinak⟩ := h
  exact ⟨⟨.same rfl rfl, rfl⟩, rfl, hinak⟩

/-- Initialization mode has been left when the first call returns. -/
theorem first_awake (h : s.setup = resetSetup filter ports) :
    Mmio.Meets device Moves (Configures id mask)
      (fun r s => r = (1, true) ∧ Awake (configured filter ports id mask) s)
      (cnCANInit false id mask) s := by
  have hat : At (resetSetup filter ports) false s := ⟨h, by simp⟩
  refine (modify_quiet hat rfl _ rfl (by decide) (by simp)).seq fun _ s h => ?_
  refine (modify_quiet h rfl _ rfl (by decide) (by simp)).seq fun _ s h => ?_
  refine (modify_quiet h rfl _ rfl (by decide) (by simp)).seq fun _ s h => ?_
  refine (modify_quiet h rfl _ rfl (by decide) (by simp)).seq fun _ s h => ?_
  refine (modify_quiet h rfl _ rfl (by decide) (by simp)).seq fun _ s h => ?_
  have hasked : At (asked filter ports) false s := by
    rw [← first_asked]
    exact h
  refine Mmio.meets_await (at_stable (by simp)) hasked fun s h => ⟨.same s, fun hinit => ?_⟩
  have hinak : s.inak = true := by
    cases hi : s.inak with
    | true => rfl
    | false => simp [device, Controller.read, flag, hi] at hinit
  have hinrq : ∀ k : Setup, k.mcr = 0x00010003#32 ∨ k.mcr = 0x00010063#32 →
      k.mcr &&& canMcrInrq ≠ 0 := by
    rintro k (hk | hk) <;> rw [hk] <;> decide
  have hinit : At (asked filter ports) true s := ⟨h.1, fun _ => hinak⟩
  refine (modify_quiet hinit rfl _ rfl (by decide) fun _ => hinrq _ (.inl rfl)).seq fun _ s h => ?_
  rw [asked_finit] at h
  refine (initCANFilter_meets id mask (fun _ => hinrq _ (.inl rfl)) h).seq fun _ s h => ?_
  refine (modify_quiet h rfl _ rfl (by decide) fun _ => hinrq _ (.inl rfl)).seq fun _ s h => ?_
  refine (modify_quiet h rfl _ rfl (by decide) fun _ => hinrq _ (.inl rfl)).seq fun _ s h => ?_
  have hawum : (((asked filter ports).bank0 id mask).modify true .fmr fun v =>
      v &&& ~~~canFmrFinit).modify true .mcr (fun v => v ||| (canMcrAwum ||| canMcrAbom)) =
      { (asked filter ports).bank0 id mask with fmr := 0x2A1C0E00#32, mcr := 0x00010063#32 } := by
    simp [Setup.modify, Setup.write, Setup.read, asked, resetSetup, Setup.bank0, Setup.off,
      Setup.bits, Setup.edited, Setup.on, canFmrFinit, canMcrAwum, canMcrAbom]
  rw [hawum] at h
  refine (store_config h rfl _ (by simp) (fun _ => hinrq _ (.inr rfl)) (.same rfl rfl)).seq
    fun _ s h => ?_
  have hleave : ∀ k, At k true s → At k false s := fun k hk => ⟨hk.1, by simp⟩
  refine (modify_quiet (hleave _ h) rfl _ rfl (by decide) (by simp)).seq fun _ s h => ?_
  refine Mmio.meets_await (at_stable (by simp)) h fun s h => ⟨.same s, fun hleft => ?_⟩
  have hinak : s.inak = false := by
    cases hi : s.inak with
    | false => rfl
    | true => simp [device, Controller.read, flag, hi, canMsrInak] at hleft
  refine (modify_awake ⟨h.1, hinak⟩ ?_).seq fun _ s h => ?_
  · exact (by decide : (0x00010063#32 &&& ~~~canMcrInrq) &&& canMcrInrq = 0)
  refine ⟨rfl, h.1.trans ?_, h.2⟩
  simp [Setup.modify, Setup.write, Setup.read, asked, resetSetup, configured, Setup.bank0, Setup.off,
    Setup.bits, Setup.edited, Setup.on, Setup.finit, canFmrFinit, canMcrInrq, canMcrSleep]

theorem first_meets (h : s.setup = resetSetup filter ports) :
    Mmio.Meets device Moves (Configures id mask)
      (fun r s => r = (1, true) ∧ s.setup = configured filter ports id mask)
      (cnCANInit false id mask) s :=
  (first_awake h).mono fun _ _ hpost => ⟨hpost.1, hpost.2.1⟩

/-- The writes to FM1R, FS1R and FFA1R are ignored now, and would change nothing. -/
theorem again_meets {id' mask' : U32} (h : s.setup = configured filter ports id' mask') :
    Mmio.Meets device Moves (Configures id mask)
      (fun r s => r = (1, true) ∧ s.setup = configured filter ports id mask)
      (cnCANInit true id mask) s := by
  have hat : At (configured filter ports id' mask') false s := ⟨h, by simp⟩
  refine (initCANFilter_meets id mask (by simp) hat).seq fun _ s h => ⟨rfl, h.1.trans ?_⟩
  simp [Setup.bank0, Setup.off, Setup.bits, Setup.edited, Setup.on, configured, Setup.finit,
    canFmrFinit]

/-- The arguments of a call. -/
structure Call where
  id : U32
  mask : U32

/-- The variable `busInited`, the call that is running with what is left of it, and the
controller. -/
structure Session where
  busInited : Bool
  running : Option (Call × Mmio Reg (Int × Bool))
  can : Controller

inductive Step where
  | call (c : Call)
  | access
  | move (x : Move)

inductive Outcome where
  | returned (c : Call) (r : Int)
  | traffic (e : Traffic)

def step : Machine Session Step Outcome
  | s, .call c =>
    match s.running with
    | none => some ({ s with running := some (c, cnCANInit s.busInited c.id c.mask) }, [])
    | some _ => none
  | s, .access =>
    match s.running with
    | none => none
    | some (c, p) =>
      let (p, can) := p.step device s.can
      match p.returned with
      | none => some (⟨s.busInited, some (c, p), can⟩, [])
      | some (r, busInited) => some (⟨busInited, none, can⟩, [.returned c r])
  | s, .move x => (s.can.move x).map fun can =>
    ({ s with can := can }, (s.can.traffic x).map .traffic)

def Outcome.call : Outcome → Option Call
  | .returned c _ => some c
  | .traffic _ => none

/-- The last call that has returned. -/
def last (tr : List (Transition Session Step Outcome)) : Option Call :=
  ((outputs tr).filterMap Outcome.call).getLast?

/-- What the setup is between two calls. -/
def settled (filter : Nat → U32 × U32) (ports : Port → U32) : Option Call → Setup
  | none => resetSetup filter ports
  | some c => configured filter ports c.id c.mask

inductive Stepped (s : Session) : Step → Session → List Outcome → Prop where
  | call (c : Call) : s.running = none →
      Stepped s (.call c) { s with running := some (c, cnCANInit s.busInited c.id c.mask) } []
  | goes {c : Call} {p : Mmio Reg (Int × Bool)} : s.running = some (c, p) →
      (p.step device s.can).1.returned = none →
      Stepped s .access ⟨s.busInited, some (c, (p.step device s.can).1), (p.step device s.can).2⟩ []
  | returns {c : Call} {p : Mmio Reg (Int × Bool)} {r : Int} {busInited : Bool} :
      s.running = some (c, p) → (p.step device s.can).1.returned = some (r, busInited) →
      Stepped s .access ⟨busInited, none, (p.step device s.can).2⟩ [.returned c r]
  | move {x : Move} {can : Controller} : s.can.move x = some can →
      Stepped s (.move x) { s with can := can } ((s.can.traffic x).map .traffic)

theorem step_stepped {s s' : Session} {x : Step} {outs : List Outcome}
    (h : step s x = some (s', outs)) : Stepped s x s' outs := by
  cases x with
  | call c =>
    simp only [step] at h
    split at h
    · cases h
      exact .call c ‹_›
    · cases h
  | access =>
    simp only [step] at h
    split at h
    · cases h
    · split at h
      · cases h
        exact .goes ‹_› ‹_›
      · cases h
        exact .returns ‹_› ‹_›
  | move x =>
    simp only [step, Option.map_eq_some_iff, Prod.mk.injEq] at h
    obtain ⟨can, hmove, rfl, rfl⟩ := h
    exact .move hmove

/-- What the calls up to now have done. -/
structure Inits (filter : Nat → U32 × U32) (ports : Port → U32)
    (tr : List (Transition Session Step Outcome)) (s : Session) : Prop where
  ones : ∀ c r, .returned c r ∈ outputs tr → r = 1
  rest : s.running = none →
    s.can.setup = settled filter ports (last tr) ∧ s.busInited = (last tr).isSome
  call : ∀ c p, s.running = some (c, p) → p.returned = none ∧
    Mmio.Meets device Moves (Configures c.id c.mask)
      (fun r s => r = (1, true) ∧ s.setup = configured filter ports c.id c.mask) p s.can
  whole : s.can.setup.active = true →
    ∃ c, (last tr = some c ∨ ∃ p, s.running = some (c, p)) ∧
      s.can.setup.filter 0 = (c.id, c.mask)

variable {tr : List (Transition Session Step Outcome)}

theorem last_quiet {x : Transition Session Step Outcome}
    (h : x.outs.filterMap Outcome.call = []) : last (tr ++ [x]) = last tr := by
  simp [last, h]

theorem last_returned {s s' : Session} {x : Step} (c : Call) (r : Int) :
    last (tr ++ [⟨s, x, [.returned c r], s'⟩]) = some c := by
  simp [last, Outcome.call]

theorem traffic_quiet (l : List Traffic) : (l.map Outcome.traffic).filterMap Outcome.call = [] := by
  induction l with
  | nil => rfl
  | cons e l ih => exact ih

theorem init_unreturned (busInited : Bool) (id mask : U32) :
    (cnCANInit busInited id mask).returned = none := by
  cases busInited <;> rfl

/-- A call finds what the calls before it left. -/
theorem call_meets {busInited : Bool} {c : Option Call} (hb : busInited = c.isSome)
    (h : s.setup = settled filter ports c) : Mmio.Meets device Moves (Configures id mask)
      (fun r s => r = (1, true) ∧ s.setup = configured filter ports id mask)
      (cnCANInit busInited id mask) s := by
  subst hb
  cases c with
  | none => exact first_meets h
  | some c => exact again_meets h

theorem configured_whole (h : s.setup = configured filter ports id mask) :
    s.setup.filter 0 = (id, mask) := by
  rw [h]
  exact Function.update_self (0 : Nat) (id, mask) filter

theorem inits_step {s s' : Session} {x : Step} {outs : List Outcome}
    (h : Inits filter ports tr s) (hstep : Stepped s x s' outs) :
    Inits filter ports (tr ++ [⟨s, x, outs, s'⟩]) s' := by
  cases hstep with
  | call c hrun =>
    obtain ⟨hsetup, hinited⟩ := h.rest hrun
    refine ⟨by simpa using h.ones, by simp, ?_, ?_⟩
    · rintro c' p he
      cases he
      exact ⟨init_unreturned .., call_meets hinited hsetup⟩
    · intro hactive
      obtain ⟨c', hc', hfilter⟩ := h.whole hactive
      refine ⟨c', .inl ?_, hfilter⟩
      rw [last_quiet rfl]
      exact hc'.resolve_right fun ⟨p, hp⟩ => by rw [hrun] at hp; cases hp
  | @goes c p hrun hret =>
    obtain ⟨hnot, hmeets⟩ := h.call c p hrun
    refine ⟨by simpa using h.ones, by simp, ?_, ?_⟩
    · rintro c' p' he
      cases he
      exact ⟨hret, (hmeets.step hnot).2⟩
    · intro hactive
      have hold : ∀ hwas : s.can.setup.active = true, ∃ c', (last tr = some c' ∨
          ∃ p', some (c, (p.step device s.can).1) = some (c', p')) ∧
          s.can.setup.filter 0 = (c'.id, c'.mask) := by
        intro hwas
        obtain ⟨c', hc', hfilter⟩ := h.whole hwas
        refine ⟨c', hc'.imp id fun ⟨p', hp'⟩ => ?_, hfilter⟩
        rw [hrun] at hp'
        cases hp'
        exact ⟨_, rfl⟩
      rw [last_quiet rfl]
      rcases (hmeets.step hnot).1.edits.whole hactive with ⟨hwas, hfilter⟩ | hfilter
      · rw [hfilter]
        exact hold hwas
      · exact ⟨c, .inr ⟨_, rfl⟩, hfilter⟩
  | @returns c p r busInited hrun hret =>
    obtain ⟨hnot, hmeets⟩ := h.call c p hrun
    obtain ⟨hr, hsetup⟩ := (hmeets.step hnot).2.ended hret
    obtain ⟨rfl, rfl⟩ := Prod.mk.inj hr
    refine ⟨?_, fun _ => ?_, by simp, fun _ => ?_⟩
    · intro c' r' hmem
      rw [Mealy.outputs_append, Mealy.outputs_singleton, List.mem_append,
        List.mem_singleton] at hmem
      cases hmem with
      | inl hmem => exact h.ones c' r' hmem
      | inr hmem =>
        cases hmem
        rfl
    · rw [last_returned]
      exact ⟨hsetup, rfl⟩
    · rw [last_returned]
      exact ⟨c, .inl rfl, configured_whole hsetup⟩
  | @move x can hmove =>
    have hmoves := move_moves hmove
    have hsetup := moves_setup hmoves
    refine ⟨?_, ?_, ?_, ?_⟩
    · intro c r hmem
      rw [Mealy.outputs_append, Mealy.outputs_singleton, List.mem_append] at hmem
      refine hmem.elim (h.ones c r) fun hmem => ?_
      obtain ⟨e, _, he⟩ := List.mem_map.mp hmem
      cases he
    · intro hrun
      rw [last_quiet (traffic_quiet _), hsetup]
      exact h.rest hrun
    · intro c p hrun
      obtain ⟨hnot, hmeets⟩ := h.call c p hrun
      exact ⟨hnot, hmeets.moved hnot hmoves⟩
    · rw [last_quiet (traffic_quiet _), hsetup]
      exact h.whole

theorem inits_run (filter : Nat → U32 × U32) (ports : Port → U32) {s : Session}
    (h : Run step ⟨false, none, resetController filter ports⟩ tr s) : Inits filter ports tr s := by
  refine h.invariant (I := Inits filter ports) ⟨by simp, fun _ => ⟨rfl, rfl⟩, by simp, ?_⟩ ?_
  · intro hactive
    simp [Setup.active, resetController, resetSetup] at hactive
  · intro _ _ _ _ _ _ hI hstep
    exact inits_step hI (step_stepped hstep)

/-- A frame that is stored passes the filter of bank 0. -/
theorem stored_filter {x : Move} {m : Mailbox} (h : .stored m ∈ s.traffic x) :
    s.setup.active = true ∧ m.ir &&& (s.setup.filter 0).2 =
      (s.setup.filter 0).1 &&& (s.setup.filter 0).2 := by
  cases x with
  | arrive m' =>
    rw [Controller.traffic] at h
    split at h
    · obtain rfl : m = m' := by
        rcases List.mem_cons.mp h with he | he
        · exact Traffic.stored.inj he
        · split at he <;> simp at he
      rename_i haccepts
      simp only [Setup.accepts, Bool.and_eq_true, decide_eq_true_eq] at haccepts
      exact ⟨haccepts.1.1.1.1, haccepts.2⟩
    · cases h
  | complete n => simp [Controller.traffic] at h
  | ack => cases h

/-- From a reset on, in any order of calls, their accesses and what the bus does: every
call returns 1. Between two calls the setup is that of the last one, with bank 0 as a
32-bit mask for FIFO 0 and no other bank active or edited. A frame that is stored, also
while a call runs, passes the filter of the last call that has returned or of the one
that runs, never a mixture of both. -/
theorem init_histories (filter : Nat → U32 × U32) (ports : Port → U32) {s : Session}
    (h : Run step ⟨false, none, resetController filter ports⟩ tr s) :
    (∀ c r, .returned c r ∈ outputs tr → r = 1) ∧
    (s.running = none → s.can.setup = settled filter ports (last tr)) ∧
    ∀ l x r m, tr = l ++ x :: r → .traffic (.stored m) ∈ x.outs →
      ∃ c, (last l = some c ∨ ∃ p, x.pre.running = some (c, p)) ∧
        m.ir &&& c.mask = c.id &&& c.mask := by
  have hinits := inits_run filter ports h
  refine ⟨hinits.ones, fun hrun => (hinits.rest hrun).1, ?_⟩
  rintro l x r m rfl hmem
  obtain ⟨hl, hstep⟩ := h.reached
  have hbefore := inits_run filter ports hl
  obtain ⟨s₀, i, outs, s₁⟩ := x
  have hstepped : Stepped s₀ i s₁ outs := step_stepped hstep
  cases hstepped with
  | call | goes => cases hmem
  | returns => simp at hmem
  | @move i can hmove =>
    have hstored : .stored m ∈ s₀.can.traffic i := by simpa using hmem
    obtain ⟨hactive, hpass⟩ := stored_filter hstored
    obtain ⟨c, hc, hfilter⟩ := hbefore.whole hactive
    rw [hfilter] at hpass
    exact ⟨c, hc, hpass⟩

section Twice

/-- A frame for the device 42, and one for another device. -/
def progReq : Mailbox := ⟨cnCANDevMask cnCanMsgProgReq 42, 0, 0, 0⟩
def progReqOther : Mailbox := ⟨cnCANDevMask cnCanMsgProgReq 7, 0, 0, 0⟩

def filterOf (devId : U8) : Call := ⟨cnCANDevMask cnCanTxFilterId devId, cnCanTxFilterMask⟩

/-- A call for the device 42, then one for the device 7, with frames in the middle of it. -/
def twiceInputs : List Step :=
  .call (filterOf 42) :: List.replicate 12 .access ++ [.move .ack] ++ List.replicate 22 .access ++
    [.move .ack] ++ List.replicate 3 .access ++
    [.move (.arrive progReq), .move (.arrive progReqOther), .call (filterOf 7), .access,
      .move (.arrive progReq), .access, .move (.arrive progReq)] ++ List.replicate 10 .access ++
    [.move (.arrive progReqOther)]

def twiceStart : Session := ⟨false, none, resetController (fun _ => (0, 0)) fun _ => 0⟩

theorem init_histories_twice : ∃ tr s, Run step twiceStart tr s ∧
    s.can.setup = configured (fun _ => (0, 0)) (fun _ => 0) (cnCANDevMask cnCanTxFilterId 7)
      cnCanTxFilterMask ∧
    s.can.fifo.items = [progReq, progReq, progReqOther] ∧
    ∀ c r, .returned c r ∈ outputs tr → r = 1 := by
  obtain ⟨tr, s, hrun, hp⟩ := Mealy.run_of_exec_any (M := step) (s := twiceStart)
    (p := fun r => decide (r.2.running.isNone = true ∧
      (last r.1).map (fun c => (c.id, c.mask)) =
        some (cnCANDevMask cnCanTxFilterId 7, cnCanTxFilterMask) ∧
      r.2.can.fifo.items = [progReq, progReq, progReqOther]))
    twiceInputs (by decide +kernel)
  obtain ⟨hrest, hlast, hfifo⟩ := of_decide_eq_true hp
  obtain ⟨hones, hsetup, _⟩ := init_histories (fun _ => (0, 0)) (fun _ => 0) hrun
  obtain ⟨⟨id, mask⟩, hc, he⟩ := Option.map_eq_some_iff.mp hlast
  obtain ⟨rfl, rfl⟩ := Prod.mk.inj he
  refine ⟨tr, s, hrun, ?_, hfifo, hones⟩
  rw [hsetup (Option.isNone_iff_eq_none.mp hrest), hc]
  rfl

end Twice

end CANnuccia.BxCan
