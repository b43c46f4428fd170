import LiquidPetProject.Configurations
import LiquidPetProject.JsonFields

namespace LiquidPetProject.Configuration

open Models JsonHelper FixedWidth Json Fallible

def decimal (digits : List Char) : ℕ := Nat.ofDigitChars 10 digits 0

section Url

def UrlPortExact (url : String) : Prop :=
  ∃ result, DatabaseConfiguration.fromUrl url = .ok result ∧ ∀ config, result = .ok config →
    ∃ parts, UrlMatch.ofUrl url = some parts ∧ config.port.toNat = decimal parts.port ∧
      1 ≤ decimal parts.port ∧ decimal parts.port ≤ 65535

def UrlPortFits (url : String) : Prop :=
  ∀ parts, UrlMatch.ofUrl url = some parts →
    decimal parts.port < 2 ^ 16 ∨ decimal parts.port < 2 ^ 31 ∧ decimal parts.port % 2 ^ 16 = 0

theorem group_some {p : Char → Bool} {cs name rest : List Char} (h : UrlMatch.group p cs = some (name, rest)) :
    name ≠ [] := by
  unfold UrlMatch.group at h
  split_ifs at h with hnil
  obtain ⟨rfl, -⟩ := Prod.mk.inj (Option.some.inj h)
  exact hnil

theorem ofUrl_some {url : String} {parts : UrlMatch} (h : UrlMatch.ofUrl url = some parts) :
    parts.user ≠ [] ∧ parts.host ≠ [] ∧ parts.databaseName ≠ [] := by
  unfold UrlMatch.ofUrl at h
  simp only [Option.bind_eq_bind, Option.bind_eq_some_iff] at h
  obtain ⟨_, -, ⟨user, _⟩, huser, _, -, _, -, ⟨host, _⟩, hhost, _, -, ⟨port, _⟩, -, _, -, ⟨name, _⟩, hname, _, -, h⟩ := h
  obtain rfl := Option.some.inj h
  exact ⟨group_some huser, group_some hhost, group_some hname⟩

theorem isEmpty_ofList {cs : List Char} (h : cs ≠ []) : (String.ofList cs).isEmpty = false := by
  rw [← Bool.not_eq_true, String.isEmpty_iff]
  intro he
  apply h
  rw [← String.toList_ofList (l := cs), he]
  rfl

theorem create_port {host name user password : String} {useSsl : Bool} {port : UInt16} (hh : host.isEmpty = false)
    (hd : name.isEmpty = false) (hu : user.isEmpty = false) (p : UInt16) :
    (∃ config, DatabaseConfiguration.create host port name user password useSsl = .ok config ∧
      config.port = p) ↔ port = p ∧ p ≠ 0 := by
  unfold DatabaseConfiguration.create
  rw [dif_neg (by simp [hh]), dif_neg (by simp [hd]), dif_neg (by simp [hu])]
  by_cases hp : port = 0
  · rw [dif_pos hp]
    constructor
    · rintro ⟨config, hc, -⟩
      cases hc
    · rintro ⟨rfl, hne⟩
      exact absurd hp hne
  · rw [dif_neg hp]
    constructor
    · rintro ⟨config, hc, rfl⟩
      obtain rfl := Except.ok.inj hc
      exact ⟨rfl, hp⟩
    · rintro ⟨rfl, -⟩
      exact ⟨_, rfl, rfl⟩

theorem ofNat_ne_zero {n : ℕ} : UInt16.ofNat n ≠ 0 ↔ n % 2 ^ 16 ≠ 0 := by
  rw [Ne, ← UInt16.toNat_inj, UInt16.toNat_ofNat']
  rfl

theorem fromUrl_port {url : String} {parts : UrlMatch} (hparts : UrlMatch.ofUrl url = some parts)
    (hfits : decimal parts.port < 2 ^ 31) :
    ∃ result, DatabaseConfiguration.fromUrl url = .ok result ∧ ∀ p,
      (∃ config, result = .ok config ∧ config.port = p) ↔ UInt16.ofNat (decimal parts.port) = p ∧ p ≠ 0 := by
  obtain ⟨hu, hh, hd⟩ := ofUrl_some hparts
  have hstoi : stoi parts.port = .ok (decimal parts.port) := if_pos hfits
  unfold DatabaseConfiguration.fromUrl
  rw [hparts]
  simp only [hstoi]
  exact ⟨_, rfl, create_port (isEmpty_ofList hh) (isEmpty_ofList hd) (isEmpty_ofList hu)⟩

theorem urlPortExact_iff (url : String) : UrlPortExact url ↔ UrlPortFits url := by
  unfold UrlPortExact UrlPortFits
  cases hparts : UrlMatch.ofUrl url with
  | none =>
    have hrejected : DatabaseConfiguration.fromUrl url = .ok (.error (.databaseConfiguration .invalidUrl)) := by
      unfold DatabaseConfiguration.fromUrl
      rw [hparts]
    constructor
    · intro _ parts h
      cases h
    · intro _
      refine ⟨_, hrejected, ?_⟩
      intro config h
      cases h
  | some parts =>
    simp only [Option.some.injEq, exists_eq_left', forall_eq']
    by_cases hfits : decimal parts.port < 2 ^ 31
    · obtain ⟨result, hresult, hport⟩ := fromUrl_port hparts hfits
      rw [hresult]
      have htoNat := UInt16.toNat_ofNat' (n := decimal parts.port)
      constructor
      · rintro ⟨result', hr, h⟩
        obtain rfl := Except.ok.inj hr
        by_cases hzero : decimal parts.port % 2 ^ 16 = 0
        · exact .inr ⟨hfits, hzero⟩
        · obtain ⟨config, hc, hp⟩ := (hport _).mpr ⟨rfl, ofNat_ne_zero.mpr hzero⟩
          obtain ⟨-, -, hle⟩ := h config hc
          left
          omega
      · intro h
        refine ⟨result, rfl, ?_⟩
        intro config hc
        obtain ⟨hp, hne⟩ := (hport config.port).mp ⟨config, hc, rfl⟩
        rw [← hp] at hne ⊢
        rw [ofNat_ne_zero] at hne
        rw [htoNat]
        omega
    · constructor
      · rintro ⟨result, hresult, -⟩
        have hstoi : stoi parts.port = .error .outOfRange := if_neg hfits
        unfold DatabaseConfiguration.fromUrl at hresult
        simp only [hparts, hstoi] at hresult
        cases hresult
      · intro h
        omega

end Url

section Sections

def Convertible : Json → Prop
  | .numberUnsigned _ | .numberInteger _ | .numberFloat _ | .boolean _ => True
  | _ => False

def Vanishes (unrepresentable : UnrepresentablePort) : Json → Prop
  | .numberUnsigned n => n.toNat % 2 ^ 16 = 0
  | .numberInteger z => z.toInt % 2 ^ 16 = 0
  | .numberFloat q => truncate q = 0 ∨ ¬ (0 ≤ truncate q ∧ truncate q < 2 ^ 16) ∧ unrepresentable q = 0
  | .boolean b => b = false
  | _ => False

def IsPort (value : Json) : Prop := ∃ x : ℕ, x < 2 ^ 16 ∧ value.scalar = some (.number x)

def PortWritten (json : Json) (key : String) (port : UInt16) : Prop :=
  json.scalarAt [key] = some (.number port.toNat)

variable {unrepresentable : UnrepresentablePort}

theorem toNat_ofInt (z : ℤ) : (UInt16.ofInt z).toNat = (z % 2 ^ 16).toNat := by
  unfold UInt16.ofInt
  rw [UInt16.toNat_ofNat']
  omega

theorem toNat_ofInt_of_fits {z : ℤ} {x : ℕ} (hx : x < 2 ^ 16) (hz : z = x) : (UInt16.ofInt z).toNat = x := by
  rw [toNat_ofInt, hz]
  omega

theorem getPort_exact {value : Json} {port : UInt16} (h : getPort unrepresentable value = .ok port) :
    value.scalar = some (.number port.toNat) ↔ IsPort value := by
  constructor
  · intro hp
    exact ⟨port.toNat, port.toNat_lt, hp⟩
  · rintro ⟨x, hx, hs⟩
    rw [hs]
    cases value with
    | numberUnsigned n =>
      obtain rfl := Except.ok.inj h
      have hn : n.toNat = x := by exact_mod_cast Scalar.number.inj (Option.some.inj hs)
      rw [hn, UInt16.toNat_ofNat_of_lt' hx]
    | numberInteger z =>
      obtain rfl := Except.ok.inj h
      have hz : z.toInt = x := by exact_mod_cast Scalar.number.inj (Option.some.inj hs)
      rw [toNat_ofInt_of_fits hx hz]
    | numberFloat q =>
      obtain rfl := Except.ok.inj h
      have hq : q = ((x : ℤ) : ℚ) := by exact_mod_cast Scalar.number.inj (Option.some.inj hs)
      have ht : truncate q = x := hq ▸ truncate_intCast x
      rw [if_pos (by omega), toNat_ofInt_of_fits hx ht]
    | _ => simp [scalar] at hs

theorem getPort_ok_iff (value : Json) : (∃ port, getPort unrepresentable value = .ok port) ↔ Convertible value := by
  cases value <;> simp [getPort, Convertible]

theorem ofInt_ne_zero {z : ℤ} : UInt16.ofInt z ≠ 0 ↔ z % 2 ^ 16 ≠ 0 := by
  rw [Ne, ← UInt16.toNat_inj, toNat_ofInt, UInt16.toNat_zero]
  omega

theorem getPort_nonzero_iff (value : Json) : (∃ port, getPort unrepresentable value = .ok port ∧ port ≠ 0) ↔
    Convertible value ∧ ¬ Vanishes unrepresentable value := by
  cases value with
  | numberUnsigned n =>
    simp only [getPort, Convertible, Vanishes, Except.ok.injEq, exists_eq_left', true_and]
    exact ofNat_ne_zero
  | numberInteger z =>
    simp only [getPort, Convertible, Vanishes, Except.ok.injEq, exists_eq_left', true_and]
    exact ofInt_ne_zero
  | numberFloat q =>
    simp only [getPort, Convertible, Vanishes, Except.ok.injEq, exists_eq_left', true_and]
    by_cases hfits : 0 ≤ truncate q ∧ truncate q < 2 ^ 16
    · rw [if_pos hfits, ofInt_ne_zero, or_iff_left (fun h => h.1 hfits)]
      omega
    · have hq : truncate q ≠ 0 := by omega
      rw [if_neg hfits, or_iff_right hq, and_iff_right hfits]
  | boolean b => cases b <;> simp [getPort, Convertible, Vanishes]
  | _ => simp [getPort, Convertible]

def HoldsString (json : Json) (key : String) (p : String → Prop) : Prop :=
  ∃ text, json.scalarAt [key] = some (.string text) ∧ text.isEmpty = false ∧ p text

def PortFits (json : Json) (key : String) (taken : Json → Prop) (rest : Prop) : Prop :=
  ∀ value, json.member key = some value → taken value → rest → IsPort value

theorem portWritten_iff {γ : Type} {result : Except ErrorCode γ} {port : γ → UInt16} {json : Json} {key : String}
    {allowed : UInt16 → Prop} {rest : Prop}
    (h : ∀ p, (∃ config, result = .ok config ∧ port config = p) ↔
      getValue (getPort unrepresentable) json key = .ok p ∧ allowed p ∧ rest) :
    (∀ config, result = .ok config → PortWritten json key (port config)) ↔
      PortFits json key (fun value => ∃ p, getPort unrepresentable value = .ok p ∧ allowed p) rest := by
  constructor
  · rintro hwritten value hmember ⟨p, hp, hallowed⟩ hrest
    obtain ⟨config, hconfig, rfl⟩ := (h p).mpr ⟨getValue_ok.mpr ⟨value, hmember, hp⟩, hallowed, hrest⟩
    have hw := hwritten config hconfig
    unfold PortWritten at hw
    rw [scalarAt_cons hmember] at hw
    exact (getPort_exact hp).mp hw
  · intro hfits config hconfig
    obtain ⟨hget, hallowed, hrest⟩ := (h (port config)).mp ⟨config, hconfig, rfl⟩
    obtain ⟨value, hmember, hp⟩ := getValue_ok.mp hget
    unfold PortWritten
    rw [scalarAt_cons hmember]
    exact (getPort_exact hp).mpr (hfits value hmember ⟨_, hp, hallowed⟩ hrest)

theorem getString_iff {json : Json} {key text : String} :
    getValue Json.getString json key = .ok text ↔ json.scalarAt [key] = some (.string text) := by
  constructor
  · exact getValue_getString
  · intro h
    obtain ⟨value, hmember, hs⟩ := Option.bind_eq_some_iff.mp h
    apply getValue_ok.mpr
    refine ⟨value, hmember, ?_⟩
    cases value with
    | string t =>
      obtain rfl := Scalar.string.inj (Option.some.inj hs)
      rfl
    | _ => simp [scalarAt, scalar] at hs

theorem getBoolean_iff {json : Json} {key : String} {b : Bool} :
    getValue getBoolean json key = .ok b ↔ json.scalarAt [key] = some (.boolean b) := by
  constructor
  · intro h
    obtain ⟨value, hmember, hb⟩ := getValue_ok.mp h
    rw [scalarAt_cons hmember]
    cases value with
    | boolean c =>
      obtain rfl := Except.ok.inj hb
      rfl
    | _ => cases hb
  · intro h
    obtain ⟨value, hmember, hs⟩ := Option.bind_eq_some_iff.mp h
    apply getValue_ok.mpr
    refine ⟨value, hmember, ?_⟩
    cases value with
    | boolean c =>
      obtain rfl := Scalar.boolean.inj (Option.some.inj hs)
      rfl
    | _ => simp [scalarAt, scalar] at hs

variable {makeAddress : MakeAddress}

theorem networkAddress_create_iff {text : String} :
    (∃ address : NetworkAddress makeAddress, NetworkAddress.create text = .ok address) ↔
      text.isEmpty = false ∧ makeAddress text = true := by
  unfold NetworkAddress.create
  split_ifs with he hv <;> simp_all

theorem host_create_iff {text : String} :
    (∃ host : Host makeAddress, Host.create text = .ok host) ↔
      text.isEmpty = false ∧ (makeAddress text = true ∨ isValidHostname text = true) := by
  unfold Host.create
  split_ifs with he ha hn <;> simp_all

theorem database_fromJson_iff {json : Json} {password : String} (p : UInt16) :
    (∃ config, DatabaseConfigurationJsonMapper.fromJson unrepresentable json password = .ok config ∧
      config.port = p) ↔
      getValue (getPort unrepresentable) json databasePort = .ok p ∧ p ≠ 0 ∧
        (HoldsString json databaseHost (fun _ => True) ∧ HoldsString json databaseName (fun _ => True) ∧
          HoldsString json databaseUser (fun _ => True) ∧ ∃ b, json.scalarAt [databaseUseSsl] = some (.boolean b)) := by
  unfold DatabaseConfigurationJsonMapper.fromJson HoldsString
  simp only [bind_ok, getString_iff, getBoolean_iff, and_true]
  constructor
  · rintro ⟨config, ⟨host, hhost, port, hport, name, hname, user, huser, b, hb, hcreate⟩, rfl⟩
    unfold DatabaseConfiguration.create at hcreate
    split_ifs at hcreate with hh hd hu hp
    obtain rfl := Except.ok.inj hcreate
    exact ⟨hport, hp, ⟨host, hhost, nonempty_of_not_isEmpty hh⟩, ⟨name, hname, nonempty_of_not_isEmpty hd⟩,
      ⟨user, huser, nonempty_of_not_isEmpty hu⟩, b, hb⟩
  · rintro ⟨hport, hp, ⟨host, hhost, hh⟩, ⟨name, hname, hd⟩, ⟨user, huser, hu⟩, b, hb⟩
    obtain ⟨config, hcreate, hconfig⟩ := (create_port hh hd hu p).mpr ⟨rfl, hp⟩
    exact ⟨config, ⟨host, hhost, p, hport, name, hname, user, huser, b, hb, hcreate⟩, hconfig⟩

theorem network_fromJson_iff {json : Json} (p : UInt16) :
    (∃ config, NetworkConfigurationJsonMapper.fromJson makeAddress unrepresentable json = .ok config ∧
      config.port = p) ↔
      getValue (getPort unrepresentable) json networkConfigurationPort = .ok p ∧ True ∧
        HoldsString json networkConfigurationAddress (fun text => makeAddress text = true) := by
  unfold NetworkConfigurationJsonMapper.fromJson HoldsString
  simp only [bind_ok, getString_iff, ← networkAddress_create_iff]
  constructor
  · rintro ⟨config, ⟨port, hport, text, htext, address, haddress, hconfig⟩, rfl⟩
    obtain rfl := Except.ok.inj hconfig
    exact ⟨hport, trivial, text, htext, address, haddress⟩
  · rintro ⟨hport, -, text, htext, address, haddress⟩
    exact ⟨⟨address, p⟩, ⟨p, hport, text, htext, address, haddress, rfl⟩, rfl⟩

theorem upstream_fromJson_iff {json : Json} (p : UInt16) :
    (∃ config, UpstreamConfigurationJsonMapper.fromJson makeAddress unrepresentable json = .ok config ∧
      config.port = p) ↔
      getValue (getPort unrepresentable) json upstreamConfigurationPort = .ok p ∧ True ∧
        HoldsString json upstreamConfigurationHost
          (fun text => makeAddress text = true ∨ isValidHostname text = true) := by
  unfold UpstreamConfigurationJsonMapper.fromJson HoldsString
  simp only [bind_ok, getString_iff, ← host_create_iff]
  constructor
  · rintro ⟨config, ⟨port, hport, text, htext, host, hhost, hconfig⟩, rfl⟩
    obtain rfl := Except.ok.inj hconfig
    exact ⟨hport, trivial, text, htext, host, hhost⟩
  · rintro ⟨hport, -, text, htext, host, hhost⟩
    exact ⟨⟨host, p⟩, ⟨p, hport, text, htext, host, hhost, rfl⟩, rfl⟩

end Sections

section Environment

variable {makeAddress : MakeAddress} {unrepresentable : UnrepresentablePort}

def IsDecimal (text : String) : Prop := text.toList ≠ [] ∧ ∀ c ∈ text.toList, c.isDigit = true

def EnvironmentPortExact (makeAddress : MakeAddress) (unrepresentable : UnrepresentablePort)
    (services : Except ErrorCode Json) (environment : String → Option String) : Prop :=
  ∀ text config, environment gatewayOrderServicePort = some text →
    loadOrderServiceConfiguration makeAddress unrepresentable services environment = .ok config →
    IsDecimal text ∧ decimal text.toList ≤ 65535 ∧ config.port.toNat = decimal text.toList

def EnvironmentPortFits (makeAddress : MakeAddress) (environment : String → Option String) : Prop :=
  ∀ address text, environment gatewayOrderServiceAddress = some address →
    environment gatewayOrderServicePort = some text →
    address.isEmpty = false → (makeAddress address = true ∨ isValidHostname address = true) →
    (numeral text).2 ≠ [] → decimal (numeral text).2 < 2 ^ 64 →
    IsDecimal text ∧ decimal text.toList ≤ 65535

theorem isSpace_of_isDigit {c : Char} (h : c.isDigit = true) : isSpace c = false ∧ c ≠ '-' ∧ c ≠ '+' := by
  have hd : 48 ≤ c.toNat ∧ c.toNat ≤ 57 := by simpa [Char.isDigit, UInt32.le_iff_toNat_le] using h
  refine ⟨?_, ?_, ?_⟩
  · have hblank : c ≠ ' ' := by
      rintro rfl
      revert hd
      decide
    have htab : ¬ c ≤ '\r' := by
      rw [Char.le_def, UInt32.le_iff_toNat_le]
      change ¬ c.toNat ≤ 13
      omega
    simp [isSpace, hblank, htab]
  · rintro rfl
    revert hd
    decide
  · rintro rfl
    revert hd
    decide

theorem numeral_of_isDecimal {text : String} (h : IsDecimal text) : numeral text = (false, text.toList) := by
  obtain ⟨hne, hdigits⟩ := h
  have htake : text.toList.takeWhile Char.isDigit = text.toList := List.takeWhile_eq_self_iff.mpr hdigits
  unfold numeral
  cases hcs : text.toList with
  | nil => exact absurd hcs hne
  | cons c cs =>
    rw [hcs] at hdigits htake
    obtain ⟨hspace, hminus, hplus⟩ := isSpace_of_isDigit (hdigits c List.mem_cons_self)
    rw [List.dropWhile_cons_of_neg (by simp [hspace])]
    split
    · next heq => exact absurd (List.cons.inj heq).1 hminus
    · next heq => exact absurd (List.cons.inj heq).1 hplus
    · rw [htake]

theorem stoul_of_isDecimal {text : String} (h : IsDecimal text) (hfits : decimal text.toList < 2 ^ 64) :
    stoul text = .ok (UInt64.ofNat (decimal text.toList)) := by
  unfold stoul
  rw [numeral_of_isDecimal h]
  exact (if_neg h.1).trans (if_pos hfits)

theorem stoul_ok_iff (text : String) :
    (∃ value, stoul text = .ok value) ↔ (numeral text).2 ≠ [] ∧ decimal (numeral text).2 < 2 ^ 64 := by
  unfold stoul
  generalize numeral text = found
  obtain ⟨negative, digits⟩ := found
  change (∃ value, (if digits = [] then _ else if decimal digits < 2 ^ 64 then _ else _) = _) ↔ _
  by_cases hne : digits = []
  · rw [if_pos hne]
    simp [hne]
  · rw [if_neg hne]
    by_cases hfits : decimal digits < 2 ^ 64
    · rw [if_pos hfits]
      exact ⟨fun _ => ⟨hne, hfits⟩, fun _ => ⟨_, rfl⟩⟩
    · rw [if_neg hfits]
      constructor
      · rintro ⟨value, h⟩
        cases h
      · rintro ⟨-, h⟩
        exact absurd h hfits

theorem unwrapOrExit_ok {α : Type} {result : Except ErrorCode α} {a : α} :
    unwrapOrExit result = .ok a ↔ result = .ok a := by
  cases result <;> simp [unwrapOrExit, Except.mapError]

theorem loadOrderServiceConfiguration_ok {services : Except ErrorCode Json}
    {environment : String → Option String} {text : String} (htext : environment gatewayOrderServicePort = some text)
    (config : UpstreamConfiguration makeAddress) :
    loadOrderServiceConfiguration makeAddress unrepresentable services environment = .ok config ↔
      ∃ address value, environment gatewayOrderServiceAddress = some address ∧
        Host.create address = .ok config.host ∧ stoul text = .ok value ∧ config.port = value.toUInt16 := by
  unfold loadOrderServiceConfiguration
  rw [htext]
  cases haddress : environment gatewayOrderServiceAddress with
  | none => simp
  | some address =>
    simp only [bind_ok, unwrapOrExit_ok]
    constructor
    · rintro ⟨host, hhost, h⟩
      cases hstoul : stoul text with
      | error e =>
        rw [hstoul] at h
        cases h
      | ok value =>
        rw [hstoul] at h
        obtain rfl := Except.ok.inj h
        exact ⟨address, value, rfl, hhost, rfl, rfl⟩
    · rintro ⟨found, value, hfound, hhost, hstoul, hport⟩
      obtain rfl := Option.some.inj hfound
      refine ⟨config.host, hhost, ?_⟩
      rw [hstoul]
      change Except.ok ⟨config.host, value.toUInt16⟩ = Except.ok config
      rw [← hport]

theorem environmentPortExact_iff (services : Except ErrorCode Json) (environment : String → Option String) :
    EnvironmentPortExact makeAddress unrepresentable services environment ↔
      EnvironmentPortFits makeAddress environment := by
  constructor
  · intro hexact address text haddress htext hnonempty hvalid hne hbound
    obtain ⟨host, hhost⟩ := host_create_iff.mpr ⟨hnonempty, hvalid⟩
    obtain ⟨value, hvalue⟩ := (stoul_ok_iff text).mpr ⟨hne, hbound⟩
    have hload : loadOrderServiceConfiguration makeAddress unrepresentable services environment =
        .ok ⟨host, value.toUInt16⟩ :=
      (loadOrderServiceConfiguration_ok htext _).mpr ⟨address, value, haddress, hhost, hvalue, rfl⟩
    obtain ⟨hdecimal, hle, -⟩ := hexact text _ htext hload
    exact ⟨hdecimal, hle⟩
  · intro hfits text config htext hload
    obtain ⟨address, value, haddress, hhost, hvalue, hport⟩ := (loadOrderServiceConfiguration_ok htext config).mp hload
    obtain ⟨hnonempty, hvalid⟩ := host_create_iff.mp ⟨_, hhost⟩
    obtain ⟨hne, hbound⟩ := (stoul_ok_iff text).mp ⟨value, hvalue⟩
    obtain ⟨hdecimal, hle⟩ := hfits address text haddress htext hnonempty hvalid hne hbound
    refine ⟨hdecimal, hle, ?_⟩
    rw [stoul_of_isDecimal hdecimal (by omega)] at hvalue
    rw [hport, ← Except.ok.inj hvalue, UInt64.toNat_toUInt16, UInt64.toNat_ofNat']
    omega

end Environment

section Routes

variable (makeAddress : MakeAddress) (unrepresentable : UnrepresentablePort)

def DatabasePortExact (json : Json) (password : String) : Prop :=
  ∀ config, DatabaseConfigurationJsonMapper.fromJson unrepresentable json password = .ok config →
    PortWritten json databasePort config.port

def NetworkPortExact (networkSection : Json) : Prop :=
  ∀ config, NetworkConfigurationJsonMapper.fromJson makeAddress unrepresentable networkSection = .ok config →
    PortWritten networkSection networkConfigurationPort config.port

def UpstreamPortExact (upstreamSection : Json) : Prop :=
  ∀ config, UpstreamConfigurationJsonMapper.fromJson makeAddress unrepresentable upstreamSection = .ok config →
    PortWritten upstreamSection upstreamConfigurationPort config.port

def DatabasePortFits (json : Json) : Prop :=
  PortFits json databasePort (fun value => Convertible value ∧ ¬ Vanishes unrepresentable value)
    (HoldsString json databaseHost (fun _ => True) ∧ HoldsString json databaseName (fun _ => True) ∧
      HoldsString json databaseUser (fun _ => True) ∧ ∃ b, json.scalarAt [databaseUseSsl] = some (.boolean b))

def NetworkPortFits (networkSection : Json) : Prop :=
  PortFits networkSection networkConfigurationPort Convertible
    (HoldsString networkSection networkConfigurationAddress (fun text => makeAddress text = true))

def UpstreamPortFits (upstreamSection : Json) : Prop :=
  PortFits upstreamSection upstreamConfigurationPort Convertible
    (HoldsString upstreamSection upstreamConfigurationHost
      (fun text => makeAddress text = true ∨ isValidHostname text = true))

/-- On each of the routes by which a port is configured, it is used as written exactly when what is written fits. -/
theorem ports_exact_iff (url password : String) (json : Json) (services : Except ErrorCode Json)
    (environment : String → Option String) :
    (UrlPortExact url ↔ UrlPortFits url) ∧
    (DatabasePortExact unrepresentable json password ↔ DatabasePortFits unrepresentable json) ∧
    (NetworkPortExact makeAddress unrepresentable json ↔ NetworkPortFits makeAddress json) ∧
    (UpstreamPortExact makeAddress unrepresentable json ↔ UpstreamPortFits makeAddress json) ∧
    (EnvironmentPortExact makeAddress unrepresentable services environment ↔
      EnvironmentPortFits makeAddress environment) := by
  refine ⟨urlPortExact_iff url, ?_, ?_, ?_, environmentPortExact_iff services environment⟩
  · unfold DatabasePortExact DatabasePortFits
    rw [portWritten_iff database_fromJson_iff]
    simp only [getPort_nonzero_iff]
  · unfold NetworkPortExact NetworkPortFits
    rw [portWritten_iff network_fromJson_iff]
    simp only [and_true, getPort_ok_iff]
  · unfold UpstreamPortExact UpstreamPortFits
    rw [portWritten_iff upstream_fromJson_iff]
    simp only [and_true, getPort_ok_iff]

theorem ports_not_exact :
    ¬ UrlPortExact "postgres://app:pw@db:70000/orders" ∧
    ¬ UrlPortExact "postgres://app:pw@db:99999999999/orders" ∧
    ¬ UpstreamPortExact (fun text => text = "10.0.0.1") (fun _ => 0)
      (.object [("address", .string "10.0.0.1"), ("port", .numberUnsigned 70000)]) ∧
    ¬ EnvironmentPortExact (fun text => text = "10.0.0.1") (fun _ => 0) (.error (.jsonParse .keyNotFound))
      (fun name => some (if name = gatewayOrderServicePort then "8080abc" else "10.0.0.1")) := by
  refine ⟨?_, ?_, ?_, ?_⟩
  · intro h
    have hfits := (urlPortExact_iff _).mp h ⟨"app".toList, "pw".toList, "db".toList, "70000".toList, "orders".toList, none⟩
      (by decide)
    revert hfits
    decide
  · intro h
    have hfits := (urlPortExact_iff _).mp h
      ⟨"app".toList, "pw".toList, "db".toList, "99999999999".toList, "orders".toList, none⟩ (by decide)
    revert hfits
    decide
  · intro h
    have hwritten := h ⟨⟨"10.0.0.1", by decide, .inl (by decide)⟩, 4464⟩ rfl
    revert hwritten
    unfold PortWritten
    decide
  · intro h
    obtain ⟨⟨-, hdigits⟩, -⟩ := h "8080abc" ⟨⟨"10.0.0.1", by decide, .inl (by decide)⟩, 8080⟩ rfl rfl
    have ha := hdigits 'a' (by decide)
    revert ha
    decide

end Routes

end LiquidPetProject.Configuration
