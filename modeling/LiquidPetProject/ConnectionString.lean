import LiquidPetProject.DatabaseConfiguration

namespace LiquidPetProject.Models.DatabaseConfiguration

open Conninfo

def sslmode (config : DatabaseConfiguration) : String := if config.useSsl then "require" else "disable"

def settings (config : DatabaseConfiguration) : List Assignment :=
  [("host".toList, config.host.toList), ("port".toList, (Nat.repr config.port.toNat).toList),
    ("dbname".toList, config.databaseName.toList), ("user".toList, config.user.toList),
    ("password".toList, config.password.toList), ("sslmode".toList, config.sslmode.toList)]

def MeansConfiguration (config : DatabaseConfiguration) : Prop :=
  ∃ parsed, parse config.toConnectionString.toList = some parsed ∧
    ∀ keyword, setting parsed keyword = setting config.settings keyword

theorem toList_texts (k₁ v₁ k₂ v₂ k₃ v₃ k₄ v₄ k₅ v₅ k₆ v₆ : String) :
    (k₁ ++ v₁ ++ k₂ ++ v₂ ++ k₃ ++ v₃ ++ k₄ ++ v₄ ++ k₅ ++ v₅ ++ k₆ ++ v₆).toList =
      k₁.toList ++ (v₁.toList ++ (k₂.toList ++ (v₂.toList ++ (k₃.toList ++ (v₃.toList ++ (k₄.toList ++
        (v₄.toList ++ (k₅.toList ++ (v₅.toList ++ (k₆.toList ++ v₆.toList)))))))))) := by
  simp only [String.toList_append, List.append_assoc]

theorem toConnectionString_render (config : DatabaseConfiguration) :
    config.toConnectionString.toList = render config.settings := by
  have htext : config.toConnectionString = "host=" ++ config.host ++ " port=" ++ Nat.repr config.port.toNat ++
      " dbname=" ++ config.databaseName ++ " user=" ++ config.user ++ " password=" ++ config.password ++
      " sslmode=" ++ config.sslmode := rfl
  rw [htext, toList_texts]
  simp only [settings, render, assign, List.append_assoc]
  rfl

theorem forall_mem_of_all {cs : List Char} {P : Char → Prop} [DecidablePred P]
    (h : cs.all (fun c => decide (P c)) = true) : ∀ c ∈ cs, P c := by
  intro c hc
  exact of_decide_eq_true (List.all_eq_true.mp h c hc)

theorem settings_keywords (config : DatabaseConfiguration) : ∀ a ∈ config.settings, Keyword a.1 := by
  unfold settings
  simp only [List.forall_mem_cons, List.not_mem_nil, IsEmpty.forall_iff, implies_true, and_true]
  refine ⟨?_, ?_, ?_, ?_, ?_, ?_⟩
  all_goals exact ⟨by decide, forall_mem_of_all (by decide)⟩

theorem settings_nodup (config : DatabaseConfiguration) : (config.settings.map Prod.fst).Nodup := by
  simp only [settings, List.map_cons, List.map_nil]
  decide

theorem settings_last (config : DatabaseConfiguration) : (render config.settings).getLast? ≠ some '=' := by
  have hsuffix : assign ("sslmode".toList, config.sslmode.toList) <:+ render config.settings := render_suffix rfl
  have hlast : (assign ("sslmode".toList, config.sslmode.toList)).getLast? = some 'e' := by
    unfold sslmode
    cases config.useSsl <;> decide
  rw [getLast_suffix hsuffix hlast]
  decide

theorem plain_digit {c : Char} (h : c.isDigit = true) :
    (isBlank c = false ∧ c ≠ '\\') ∧ c ≠ '\'' ∧ c ≠ '\x00' := by
  refine ⟨⟨?_, ?_⟩, ?_, ?_⟩
  · cases hblank : isBlank c with
    | false => rfl
    | true =>
      simp only [isBlank, Bool.or_eq_true, decide_eq_true_eq] at hblank
      rcases hblank with ((((rfl | rfl) | rfl) | rfl) | rfl) | rfl
      all_goals exact absurd h (by decide)
  all_goals
    rintro rfl
    exact absurd h (by decide)

theorem plain_port (n : ℕ) : Plain (Nat.repr n).toList := by
  have hdigits : ∀ c ∈ (Nat.repr n).toList, c.isDigit = true := by
    intro c hc
    rw [Nat.toList_repr] at hc
    exact Nat.isDigit_of_mem_toDigits (by decide) (by decide) hc
  refine ⟨?_, ⟨fun c hc => (plain_digit (hdigits c hc)).1, ?_⟩, fun hc => (plain_digit (hdigits _ hc)).2.2 rfl⟩
  · rw [Nat.toList_repr]
    exact List.ne_nil_of_length_pos Nat.length_toDigits_pos
  · intro hquote
    exact (plain_digit (hdigits _ (List.mem_of_head? hquote))).2.1 rfl

theorem plain_sslmode (config : DatabaseConfiguration) : Plain config.sslmode.toList := by
  unfold sslmode
  cases config.useSsl
  all_goals exact ⟨by decide, ⟨forall_mem_of_all (by decide), by decide⟩, by decide⟩

/-- The connection string means its configuration exactly when every field can stand unquoted. -/
theorem connectionString_iff (config : DatabaseConfiguration) :
    config.MeansConfiguration ↔
      Plain config.host.toList ∧ Plain config.databaseName.toList ∧ Plain config.user.toList ∧
        Plain config.password.toList := by
  unfold MeansConfiguration
  rw [toConnectionString_render, parse_render_iff config.settings_keywords config.settings_nodup config.settings_last]
  simp only [settings, List.forall_mem_cons, List.not_mem_nil, IsEmpty.forall_iff, implies_true, and_true]
  constructor
  · rintro ⟨hhost, -, hdatabase, huser, hpassword, -⟩
    exact ⟨hhost, hdatabase, huser, hpassword⟩
  · rintro ⟨hhost, hdatabase, huser, hpassword⟩
    exact ⟨hhost, plain_port _, hdatabase, huser, hpassword, config.plain_sslmode⟩

def passwordless : DatabaseConfiguration where
  host := "localhost"
  port := 5432
  databaseName := "orders"
  user := "orders_user"
  password := ""
  useSsl := true
  hostNonempty := by decide
  databaseNameNonempty := by decide
  userNonempty := by decide
  portNonzero := by decide

theorem passwordless_loses_sslmode :
    create "localhost" 5432 "orders" "orders_user" "" true = .ok passwordless ∧
      ¬ passwordless.MeansConfiguration ∧
      ∃ parsed, parse passwordless.toConnectionString.toList = some parsed ∧
        setting parsed "sslmode".toList = none ∧
        setting parsed "password".toList = some "sslmode=require".toList := by
  refine ⟨create_fields passwordless, ?_, _, rfl, by decide, by decide⟩
  rintro ⟨parsed, hparse, hsettings⟩
  have hsslmode := hsettings "sslmode".toList
  obtain rfl := Option.some.inj hparse
  revert hsslmode
  decide

end LiquidPetProject.Models.DatabaseConfiguration
