import PicoSignet.Commands

/-!
# Certificates come from an unlocked session

In production mode a certificate is only issued inside a session that an `unlock`
opened, and the key that signs it is the one of that session.  The property looks
back over the whole history of the device; `SessionSeed` says which seed the
session holds after a history, and the invariant ties it to the live key.
-/

set_option autoImplicit false

namespace PicoSignet

open Crash

variable {P : Prims}

/-! ### What a command does to the session -/

inductive Move (h : Hsm P) (c : Command) : HsmResponse → Hsm P → Prop
  | kept {resp : HsmResponse} {h' : Hsm P} (hstate : h'.state = h.state)
      (hconfig : h'.config = h.config) (hca : h'.ca = h.ca)
      (hlock : c = .lock → resp ≠ .lock true) : Move h c resp h'
  | closed {resp : HsmResponse} {h' : Hsm P} (hca : h'.ca = none)
      (hprod : ∀ cfg, h'.config = some cfg → cfg.mode = .prod →
        h'.state = .prodLocked ∨ h'.state = .lockedOut) : Move h c resp h'
  | dev {resp : HsmResponse} {h' : Hsm P} {cfg : DeviceConfig} (hconfig : h'.config = some cfg)
      (hmode : cfg.mode = .dev) : Move h c resp h'
  | opened {req : UnlockReq} {cfg : DeviceConfig} {seed kek : Bytes 32} {salt : Bytes 16}
      {h' : Hsm P} (hc : c = .unlock req) (hlocked : h.state = .prodLocked)
      (hconfig : h.config = some cfg)
      (hopens : Opens P h.flash cfg req.pin seed kek salt) (hconfig' : h'.config = h.config)
      (hstate : h'.state = .prodReady) (hca : h'.ca = some (CaKey.fromSeed seed)) :
      Move h c (.unlock true) h'
  | rotated {req : GenerateKeyReq} {line : String} {key : CaKey} {h' : Hsm P}
      (hc : c = .generateKey req) (hready : h.state = .devReady ∨ h.state = .prodReady)
      (hconfig : h'.config = h.config) (hstate : h'.state = h.state) (hca : h'.ca = some key) :
      Move h c (.generateKey true line) h'
  | reread {req : ChangePinReq} {cfg : DeviceConfig} {seed kek : Bytes 32} {salt : Bytes 16}
      {h' : Hsm P} (hc : c = .changePin req) (hready : h.state = .prodReady)
      (hconfig : h.config = some cfg) (hopens : Opens P h.flash cfg req.currentPin seed kek salt)
      (hconfig' : h'.config = h.config) (hstate : h'.state = .prodReady)
      (hca : h'.ca = some (CaKey.fromSeed seed)) : Move h c (.changePin true) h'

/-- A footprint that spares state, configuration and secrets keeps the session. -/
theorem Move.of_within {F : Field → Prop} {R : Option Region → Prop} {h h' : Hsm P} {c : Command}
    {resp : HsmResponse} (hw : Within F R h h') (hF : ¬ F .state ∧ ¬ F .config ∧ ¬ F .secrets)
    (hc : c ≠ .lock) : Move h c resp h' :=
  .kept (hw.same .state hF.1) (hw.same .config hF.2.1) (hw.same .secrets hF.2.2).1
    fun heq => absurd heq hc

theorem Move.of_wrong {cfg : DeviceConfig} {attempts : Nat} {h h' : Hsm P} {g : Flash}
    {c : Command} {resp : HsmResponse} (hwrong : WrongPin cfg attempts { h with flash := g } h')
    (hc : c ≠ .lock) : Move h c resp h' := by
  cases hwrong with
  | retry => exact .kept rfl rfl rfl fun heq => absurd heq hc
  | lockout => exact .closed rfl fun _ _ _ => Or.inr rfl
  | wipe => exact .closed rfl fun _ _ _ => Or.inr rfl

/-- A PIN that is refused, for whatever reason, keeps or closes the session. -/
theorem Move.of_rejected {cfg : DeviceConfig} {pin : Str} {h h' : Hsm P} {c : Command}
    {resp resp' : HsmResponse} (hv : Verified cfg pin h (.error resp') h') (hc : c ≠ .lock) :
    Move h c resp h' := by
  cases hv with
  | refused => exact .kept rfl rfl rfl fun heq => absurd heq hc
  | wrong hg hblob htick hwrong => exact .of_wrong hwrong hc

theorem Verified.opens {cfg : DeviceConfig} {pin : Str} {h h' : Hsm P} {seed kek : Bytes 32}
    {salt : Bytes 16} (hv : Verified cfg pin h (.ok (seed, kek, salt)) h') :
    Opens P h.flash cfg pin seed kek salt ∧
      ∃ g until_, h' = { h with flash := g, pinBackoffUntilMs := until_ } := by
  cases hv with
  | opened hg hopens hreset => exact ⟨hopens, _, _, rfl⟩

/-- The gate lets a session through as it was. -/
theorem Gate.session {pin : Option Str} {h h₁ : Hsm P} (hgate : Gate pin h none h₁) :
    h₁.state = h.state ∧ h₁.config = h.config ∧ h₁.ca = h.ca := by
  cases hgate with
  | free => exact ⟨rfl, rfl, rfl⟩
  | physical => exact ⟨rfl, rfl, rfl⟩
  | verified hpin hstate hcfg hv =>
    obtain ⟨-, g, until_, rfl⟩ := hv.opens
    exact ⟨rfl, rfl, rfl⟩

theorem Move.of_gated {pin : Option Str} {h h' : Hsm P} {c : Command} {resp resp' : HsmResponse}
    (hgate : Gate pin h (some resp') h') (hc : c ≠ .lock) : Move h c resp h' := by
  cases hgate with
  | refused => exact .kept rfl rfl rfl fun heq => absurd heq hc
  | rejected hpin hstate hcfg hv => exact .of_rejected hv hc

/-- A freshly loaded session is blank, in development mode, or locked. -/
theorem Move.of_loaded {h h₀ : Hsm P} {c : Command} {resp : HsmResponse}
    (cfg : Option DeviceConfig) (keyblob : Option KeyBlob) (time : Option Int64 × Bool)
    (attempts : Nat) : Move h c resp (h₀.loaded cfg keyblob time attempts) := by
  obtain ⟨state, ca, kek, until_, hstate, heq⟩ := h₀.loaded_cases cfg keyblob time attempts
  rw [heq]
  cases hstate with
  | blank => exact .closed rfl (by simp)
  | dev hmode => exact .dev rfl hmode
  | locked hmode hroom => exact .closed rfl fun _ _ _ => Or.inl rfl
  | lockedOut hmode => exact .closed rfl fun _ _ _ => Or.inr rfl

theorem Move.of_rewrapped {req : ChangePinReq} {cfg : DeviceConfig} {seed kek : Bytes 32}
    {salt : Bytes 16} {resp : HsmResponse} {h h₁ h' : Hsm P} (hconfig : h.config = some cfg)
    (hv : Verified cfg req.currentPin h (.ok (seed, kek, salt)) h₁)
    (hr : Rewrapped req.newPin (h.state = .prodReady) seed h₁ resp h') :
    Move h (.changePin req) resp h' := by
  obtain ⟨hopens, g, until_, rfl⟩ := hv.opens
  cases hr with
  | refused hrng hresp =>
    obtain ⟨drbg, entropy, rfl⟩ := hrng.exists
    exact .kept rfl rfl rfl (by simp)
  | failed hresp hg hfail => exact .kept rfl rfl rfl (by simp)
  | done hblob hg hreset =>
    by_cases hready : h.state = .prodReady
    · exact .reread rfl hready hconfig hopens rfl (by simp [hready]) (by simp [hready])
    · exact .closed (by simp [hready]) fun _ _ _ => Or.inl (by simp [hready])

/-- What each command does to the session when it returns. -/
theorem move_run (c : Command) (h : Hsm P) :
    Wp (c.run : Dev P HsmResponse) (Move h c) (fun _ _ => True) h := by
  -- a command whose footprint spares the session
  have hspared : ∀ {m : Dev P HsmResponse}, c ≠ .lock →
      Stays (Within (fun x => x ≠ .state ∧ x ≠ .config ∧ x ≠ .secrets) fun _ => True) m →
      Wp m (Move h c) (fun _ _ => True) h := by
    intro m hc hm
    refine (hm h).mono ?_ fun _ _ _ => trivial
    intro resp h' hw
    exact .of_within hw (by simp) hc
  cases c with
  | init req =>
    refine (wp_init req h).mono ?_ fun _ _ _ => trivial
    rintro resp h' (rfl | ⟨-, ⟨-, hdev⟩ | ⟨-, hprod⟩⟩)
    · exact .kept rfl rfl rfl (by simp)
    · cases hdev with
      | refused => exact .kept rfl rfl rfl (by simp)
      | failed => exact .kept rfl rfl rfl (by simp)
      | done => exact .dev rfl rfl
    · cases hprod with
      | refused hrng =>
        obtain ⟨drbg, entropy, rfl⟩ := hrng.exists
        exact .kept rfl rfl rfl (by simp)
      | keyFailed => exact .kept rfl rfl rfl (by simp)
      | configFailed => exact .kept rfl rfl rfl (by simp)
      | done => exact .closed rfl fun _ _ _ => Or.inl rfl
  | generateKey req =>
    refine (wp_generateKey req h).mono ?_ fun _ _ _ => trivial
    rintro resp h' (⟨rfl, -⟩ | ⟨hready, hr⟩)
    · exact .kept rfl rfl rfl (by simp)
    cases hr with
    | refused hrng =>
      obtain ⟨drbg, entropy, rfl⟩ := hrng.exists
      exact .kept rfl rfl rfl (by simp)
    | failed => exact .kept rfl rfl rfl (by simp)
    | done hblob hg => exact .rotated rfl hready rfl rfl rfl
  | getPublicKey => exact hspared (by simp) stays_getPublicKey
  | unlock req =>
    refine (wp_unlock req h).mono ?_ fun _ _ _ => trivial
    intro resp h' hu
    cases hu with
    | refused => exact .kept rfl rfl rfl (by simp)
    | rejected hcfg hstate hv => exact .of_rejected hv (by simp)
    | opened hcfg hstate hv =>
      obtain ⟨hopens, g, until_, rfl⟩ := hv.opens
      exact .opened rfl hstate hcfg hopens rfl rfl rfl
  | lock =>
    refine (wp_lock h).mono ?_ fun _ _ _ => trivial
    rintro resp h' (⟨-, -, rfl⟩ | ⟨hstate, -, rfl⟩ | ⟨hresp, rfl⟩)
    · exact .closed rfl fun _ _ _ => Or.inl rfl
    · exact .closed rfl fun _ _ _ => hstate
    · exact .kept rfl rfl rfl fun _ => hresp
  | setTime req =>
    exact hspared (by simp) (stays_setTime (by simp) (by simp) trivial trivial req)
  | status => exact hspared (by simp) stays_status
  | changePin req =>
    refine (wp_changePin req h).mono ?_ fun _ _ _ => trivial
    intro resp h' hp
    cases hp with
    | refused hresp => exact .kept rfl rfl rfl (by simp)
    | rejected hcfg hstate hv => exact .of_rejected hv (by simp)
    | rewrapped hcfg hstate hv hr => exact .of_rewrapped hcfg hv hr
  | addEntropy req => exact hspared (by simp) (stays_addEntropy req)
  | selfTest => exact hspared (by simp) stays_selfTest
  | factoryReset req =>
    refine (wp_factoryReset req h).mono ?_ fun _ _ _ => trivial
    intro resp h' hf
    cases hf with
    | refused => exact .kept rfl rfl rfl (by simp)
    | gated hgate => exact .of_gated hgate (by simp)
    | erased hgate => exact .closed rfl (by simp [Hsm.afterReset])
    | incomplete => exact .of_loaded _ _ _ _
  | rebootBootloader req =>
    refine (wp_rebootBootloader req h).mono ?_ fun _ _ _ => trivial
    rintro resp h' (⟨resp', hgate⟩ | ⟨h₁, hgate, rfl⟩)
    · exact .of_gated hgate (by simp)
    · obtain ⟨hstate, hconfig, hca⟩ := hgate.session
      exact .kept hstate hconfig hca (by simp)

/-! ### The seed of a session -/

/-- The moments that end a production session. -/
def Moment.Closes (m : Moment P) : Prop :=
  match m.event with
  | .boot _ => True
  | .relock => True
  | .line bytes _ => (lineCommand P bytes = some .lock ∧ m.response = some (.hsm (.lock true))) ∨
      ∃ h', m.after = .on h' ∧ h'.state = .lockedOut
  | _ => False

/-- The session that a history leaves open holds this seed: an `unlock` whose PIN
    unwrapped the stored key opened it, and what followed did not close it. -/
inductive SessionSeed : List (Moment P) → Bytes 32 → Prop
  | opened {hist : List (Moment P)} {m : Moment P} {h : Hsm P} {bytes : Octets}
      {faults : List Fault} {req : UnlockReq} {cfg : DeviceConfig} {seed kek : Bytes 32}
      {salt : Bytes 16} (hbefore : m.before = .on h) (hevent : m.event = .line bytes faults)
      (hunlock : lineCommand P bytes = some (.unlock req))
      (hresponse : m.response = some (.hsm (.unlock true))) (hlocked : h.state = .prodLocked)
      (hconfig : h.config = some cfg)
      (hopens : Opens P h.flash cfg req.pin seed kek salt) (hcloses : ¬ m.Closes) :
      SessionSeed (m :: hist) seed
  | rotated {hist : List (Moment P)} {m : Moment P} {h' : Hsm P} {bytes : Octets}
      {faults : List Fault} {req : GenerateKeyReq} {line : String} {old : Bytes 32} {key : CaKey}
      (hopen : SessionSeed hist old) (hevent : m.event = .line bytes faults)
      (hgenerate : lineCommand P bytes = some (.generateKey req))
      (hresponse : m.response = some (.hsm (.generateKey true line))) (hafter : m.after = .on h')
      (hca : h'.ca = some key) (hcloses : ¬ m.Closes) : SessionSeed (m :: hist) key.seed
  | reread {hist : List (Moment P)} {m : Moment P} {h : Hsm P} {bytes : Octets}
      {faults : List Fault} {req : ChangePinReq} {cfg : DeviceConfig} {old seed kek : Bytes 32}
      {salt : Bytes 16} (hopen : SessionSeed hist old) (hbefore : m.before = .on h)
      (hevent : m.event = .line bytes faults)
      (hchange : lineCommand P bytes = some (.changePin req))
      (hresponse : m.response = some (.hsm (.changePin true))) (hconfig : h.config = some cfg)
      (hopens : Opens P h.flash cfg req.currentPin seed kek salt) (hcloses : ¬ m.Closes) :
      SessionSeed (m :: hist) seed
  | kept {hist : List (Moment P)} {m : Moment P} {seed : Bytes 32} (hopen : SessionSeed hist seed)
      (hcloses : ¬ m.Closes) : SessionSeed (m :: hist) seed

/-- In production mode a live key means an open session, and the key is its key. -/
structure SessionSound (hist : List (Moment P)) (h : Hsm P) : Prop where
  locked : ∀ cfg, h.config = some cfg → cfg.mode = .prod →
    h.state = .prodLocked ∨ h.state = .prodReady ∨ h.state = .lockedOut
  live : ∀ cfg key, h.config = some cfg → cfg.mode = .prod → h.ca = some key →
    h.state = .prodReady ∧ SessionSeed hist key.seed
  ready : ∀ cfg, h.config = some cfg → cfg.mode = .prod → h.state = .prodReady →
    ∃ key, h.ca = some key

theorem SessionSound.of_closed {hist : List (Moment P)} {h : Hsm P} (hca : h.ca = none)
    (hprod : ∀ cfg, h.config = some cfg → cfg.mode = .prod →
      h.state = .prodLocked ∨ h.state = .lockedOut) : SessionSound hist h where
  locked cfg hcfg hmode := (hprod cfg hcfg hmode).imp_right Or.inr
  live cfg key hcfg hmode hkey := by
    rw [hca] at hkey
    exact absurd hkey (by simp)
  ready cfg hcfg hmode hready := by
    rcases hprod cfg hcfg hmode with hstate | hstate <;>
      exact absurd (hready.symm.trans hstate) (by decide)

theorem SessionSound.of_notProd {hist : List (Moment P)} {h : Hsm P}
    (hno : ∀ cfg, h.config = some cfg → cfg.mode ≠ .prod) : SessionSound hist h :=
  ⟨fun cfg hcfg hmode => absurd hmode (hno cfg hcfg),
    fun cfg _ hcfg hmode => absurd hmode (hno cfg hcfg),
    fun cfg hcfg hmode => absurd hmode (hno cfg hcfg)⟩

theorem SessionSound.of_dev {hist : List (Moment P)} {h : Hsm P} {cfg : DeviceConfig}
    (hcfg : h.config = some cfg) (hmode : cfg.mode = .dev) : SessionSound hist h := by
  refine .of_notProd fun cfg' hcfg' hprod => ?_
  rw [hcfg] at hcfg'
  obtain rfl := Option.some.inj hcfg'
  rw [hmode] at hprod
  exact absurd hprod (by decide)

/-- A ready production session has its seed on record. -/
theorem SessionSound.exists_seed {hist : List (Moment P)} {h : Hsm P} {cfg : DeviceConfig}
    (hsound : SessionSound hist h) (hcfg : h.config = some cfg) (hmode : cfg.mode = .prod)
    (hready : h.state = .prodReady) : ∃ seed, SessionSeed hist seed := by
  obtain ⟨key, hkey⟩ := hsound.ready cfg hcfg hmode hready
  exact ⟨key.seed, (hsound.live cfg key hcfg hmode hkey).2⟩

/-- A session that is open after a moment: its state is ready and it has this key. -/
theorem SessionSound.of_ready {hist : List (Moment P)} {h : Hsm P} {key : CaKey}
    (hstate : h.state = .prodReady) (hca : h.ca = some key) (hseed : SessionSeed hist key.seed) :
    SessionSound hist h where
  locked _ _ _ := Or.inr (Or.inl hstate)
  live _ key' _ _ hkey' := by
    rw [hca] at hkey'
    obtain rfl := Option.some.inj hkey'
    exact ⟨hstate, hseed⟩
  ready _ _ _ _ := ⟨key, hca⟩

/-- Nothing that matters to the session changed. -/
theorem SessionSound.of_kept {hist : List (Moment P)} {m : Moment P} {h h' : Hsm P}
    (hsound : SessionSound hist h) (hstate : h'.state = h.state) (hconfig : h'.config = h.config)
    (hca : h'.ca = h.ca) (hcloses : h.state = .prodReady → ¬ m.Closes) :
    SessionSound (m :: hist) h' where
  locked cfg hcfg hmode := by
    rw [hstate]
    exact hsound.locked cfg (hconfig ▸ hcfg) hmode
  live cfg key hcfg hmode hkey := by
    obtain ⟨hready, hseed⟩ := hsound.live cfg key (hconfig ▸ hcfg) hmode (hca ▸ hkey)
    exact ⟨hstate.trans hready, .kept hseed (hcloses hready)⟩
  ready cfg hcfg hmode hready := by
    rw [hca]
    exact hsound.ready cfg (hconfig ▸ hcfg) hmode (hstate ▸ hready)

/-- A command that returned leaves a sound session. -/
theorem SessionSound.of_move {hist : List (Moment P)} {h h' : Hsm P} {bytes : Octets}
    {faults : List Fault} {c : Command} {resp : HsmResponse} (hsound : SessionSound hist h)
    (hc : lineCommand P bytes = some c) (hmove : Move (h.facing faults) c resp h') :
    SessionSound (⟨.line bytes faults, .on h, some (.hsm resp), .on h'⟩ :: hist) h' := by
  -- a ready session after the moment means that the moment did not close it
  have hopen : (c = .lock → resp ≠ .lock true) → h'.state = .prodReady →
      ¬ (⟨.line bytes faults, .on h, some (.hsm resp), .on h'⟩ : Moment P).Closes := by
    rintro hlock hready (⟨hl, hr⟩ | ⟨h'', hafter, hstate⟩)
    · rw [hc] at hl
      exact hlock (Option.some.inj hl) (Response.hsm.inj (Option.some.inj hr))
    · obtain rfl := Sys.on.inj hafter
      exact absurd (hready.symm.trans hstate) (by decide)
  cases hmove with
  | kept hstate hconfig hca hlock =>
    exact hsound.of_kept hstate hconfig hca fun hready => hopen hlock (hstate.trans hready)
  | closed hca hprod => exact .of_closed hca hprod
  | dev hconfig hmode => exact .of_dev hconfig hmode
  | opened hcmd hlocked hconfig hopens hconfig' hstate hca =>
    subst hcmd
    exact .of_ready hstate hca
      (.opened rfl rfl hc rfl hlocked hconfig hopens (hopen (by simp) hstate))
  | rotated hcmd hready hconfig hstate hca =>
    subst hcmd
    by_cases hprod : ∃ cfg, h.config = some cfg ∧ cfg.mode = .prod
    · obtain ⟨cfg, hcfg, hmode⟩ := hprod
      have hready' : h.state = .prodReady := by
        rcases hready with hdev | hready
        · rcases hsound.locked cfg hcfg hmode with h₁ | h₁ | h₁ <;>
            exact absurd (hdev.symm.trans h₁) (by decide)
        · exact hready
      obtain ⟨old, hold⟩ := hsound.exists_seed hcfg hmode hready'
      have hstate' : h'.state = .prodReady := hstate.trans hready'
      exact .of_ready hstate' hca (.rotated hold rfl hc rfl rfl hca (hopen (by simp) hstate'))
    · exact .of_notProd fun cfg hcfg hmode => hprod ⟨cfg, hconfig ▸ hcfg, hmode⟩
  | reread hcmd hready hconfig hopens hconfig' hstate hca =>
    subst hcmd
    rename_i cfg _ _ _
    by_cases hmode : cfg.mode = .prod
    · obtain ⟨old, hold⟩ := hsound.exists_seed hconfig hmode hready
      exact .of_ready hstate hca
        (.reread hold rfl rfl hc rfl hconfig hopens (hopen (by simp) hstate))
    · refine .of_notProd fun cfg' hcfg' => ?_
      rw [hconfig', hconfig] at hcfg'
      obtain rfl := Option.some.inj hcfg'
      exact hmode

/-! ### Every run -/

/-- The invariant of a run: while powered, the session is sound. -/
def SessionInvariant (hist : List (Moment P)) (s : Sys P) : Prop :=
  ∀ h, s = .on h → SessionSound hist h

theorem session_boot {hist : List (Moment P)} {f : Flash} {p : PowerUp} {h : Hsm P}
    (hboot : PoweredUp f p h) : SessionSound hist h := by
  obtain ⟨drbg, entropy, g, cfg, keyblob, time, attempts, rfl, -, -⟩ := hboot
  obtain ⟨state, ca, kek, until_, hstate, heq⟩ :=
    (Hsm.fresh entropy p.mono g drbg).loaded_cases cfg keyblob time attempts
  rw [heq]
  cases hstate with
  | blank => exact .of_notProd (by simp [PowerUp.latch])
  | dev hmode => exact .of_dev rfl hmode
  | locked hmode hroom => exact .of_closed rfl fun _ _ _ => Or.inl rfl
  | lockedOut hmode => exact .of_closed rfl fun _ _ _ => Or.inr rfl

theorem relock_closed {h : Hsm P} {hist : List (Moment P)} (hsound : SessionSound hist h)
    (hist' : List (Moment P)) : SessionSound hist' h.relockOnTransportReset := by
  unfold Hsm.relockOnTransportReset
  dsimp only
  split
  · split
    · exact .of_closed rfl fun _ _ _ => Or.inl rfl
    · rename_i hready
      refine .of_closed rfl fun cfg hcfg hmode => ?_
      rcases hsound.locked cfg hcfg hmode with hstate | hstate | hstate
      · exact Or.inl hstate
      · exact absurd hstate hready
      · exact Or.inr hstate
  · rename_i hno
    refine .of_notProd fun cfg hcfg hmode => hno (Or.inr ?_)
    rw [hcfg, ← hmode]
    rfl

theorem SessionInvariant.on {hist : List (Moment P)} {h : Hsm P} (hsound : SessionSound hist h) :
    SessionInvariant hist (.on h) := by
  rintro _ heq
  obtain rfl := Sys.on.inj heq
  exact hsound

theorem SessionInvariant.off {hist : List (Moment P)} {f : Flash} :
    SessionInvariant (P := P) hist (.off f) := by
  rintro h heq
  cases heq

theorem SessionInvariant.step {hist : List (Moment P)} {s s' : Sys P} {e : Event}
    {resp : Option Response} (hinv : SessionInvariant hist s) (hstep : Stepped s e resp s') :
    SessionInvariant (⟨e, s, resp, s'⟩ :: hist) s' := by
  cases hstep with
  | booted hboot => exact .on (session_boot hboot)
  | bootCut hcut hg => exact .off
  | unpowered hno => exact .off
  | @drew h h' _ _ _ hc hrun hrng =>
    obtain ⟨drbg, entropy, rfl⟩ := hrng.exists
    refine .on ((hinv h rfl).of_kept rfl rfl rfl ?_)
    rintro hready (⟨hl, -⟩ | ⟨h'', hafter, hstate⟩)
    · exact absurd (hc.symm.trans hl) (by simp)
    · obtain rfl := Sys.on.inj hafter
      exact absurd (hready.symm.trans hstate) (by decide)
  | @served h h' _ _ c _ hc hrun =>
    exact .on ((hinv h rfl).of_move hc ((move_run c _).of_ok hrun))
  | cut hc hrun => exact .off
  | @relocked h => exact .on (relock_closed (hinv h rfl) _)
  | @advanced h => exact .on ((hinv h rfl).of_kept rfl rfl rfl fun _ => id)
  | @quiet h e _ _ _ _ he =>
    refine .on ((hinv h rfl).of_kept rfl rfl rfl fun _ => ?_)
    rcases he with rfl | ⟨n, rfl⟩ | rfl <;> exact id

theorem Run.sessionInvariant {image : Flash} {hist : List (Moment P)} {s : Sys P}
    (hrun : Run image hist s) : SessionInvariant hist s :=
  hrun.induct .off fun _ _ _ _ _ hinv hstep => hinv.step hstep

/-- On every run, a certificate issued in production mode is signed with the key
    of an open session. -/
theorem certificate_from_open_session {image : Flash} {m : Moment P} {older : List (Moment P)}
    {s : Sys P} {h : Hsm P} {cfg : DeviceConfig} {cert : String}
    (hrun : Run image (m :: older) s) (hbefore : m.before = .on h) (hconfig : h.config = some cfg)
    (hprod : cfg.mode = .prod) (hcert : m.response = some (.signSshKey cert)) :
    ∃ params ca, cert = buildCertificate P params ca ∧ h.ca = some ca ∧
      SessionSeed older ca.seed := by
  obtain ⟨holder, hstep, -⟩ := hrun.last
  rw [hbefore, hcert] at hstep
  have hissued := hstep.issued trivial
  generalize hresp : Response.signSshKey cert = resp at hissued
  obtain ⟨hca, hready, hnow, hvalid⟩ := hissued
  have hsound := holder.sessionInvariant h hbefore
  exact ⟨_, _, Response.signSshKey.inj hresp, hca, (hsound.live cfg _ hconfig hprod hca).2⟩

/-- The last moment of a history issued a certificate in production mode. -/
def endsInCertificate : List (Moment P) → Bool
  | ⟨_, .on h, some (.signSshKey _), _⟩ :: _ => h.config.any fun cfg => cfg.mode == .prod
  | _ => false

theorem exists_of_endsInCertificate {hist : List (Moment P)} (hends : endsInCertificate hist = true) :
    ∃ m older h cfg cert, hist = m :: older ∧ m.before = .on h ∧ h.config = some cfg ∧
      cfg.mode = .prod ∧ m.response = some (.signSshKey cert) := by
  unfold endsInCertificate at hends
  split at hends
  · rename_i e h cert after older
    cases hcfg : h.config with
    | none => simp [hcfg] at hends
    | some cfg =>
      have hmode : cfg.mode = .prod := by simpa [hcfg] using hends
      exact ⟨_, older, h, cfg, cert, rfl, rfl, hcfg, hmode, rfl⟩
  · exact absurd hends (by simp)

theorem certificate_from_open_session_bench :
    ∃ (m : Moment Bench.signing) (older : List (Moment Bench.signing)) (s : Sys Bench.signing)
      (cert : String) (params : CertParams) (ca : CaKey),
      Run Bench.prodImage (m :: older) s ∧ m.response = some (.signSshKey cert) ∧
      cert = buildCertificate Bench.signing params ca ∧ SessionSeed older ca.seed := by
  obtain ⟨m, older, h, cfg, cert, heq, hbefore, hconfig, hprod, hcert⟩ :=
    exists_of_endsInCertificate (show endsInCertificate
      (replay (P := Bench.signing) Bench.prodImage Bench.signingEvents).1 = true by decide +kernel)
  have hrun := run_replay (P := Bench.signing) Bench.prodImage Bench.signingEvents
  rw [heq] at hrun
  obtain ⟨params, ca, hbuild, -, hseed⟩ :=
    certificate_from_open_session hrun hbefore hconfig hprod hcert
  exact ⟨m, older, _, cert, params, ca, hrun, hcert, hbuild, hseed⟩

end PicoSignet
