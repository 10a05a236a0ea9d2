import Querier.Config.Form

/-!
# Configurations keep to their limits

A configuration is the standard one, or was read, or is another one with a setting
changed. All of these go through `Config.set`, and so does every field of a document that
is read, which is why the limits of the settings hold of all of them.

## Main results

* `SettingField.readTable_induction`: what reading every single field keeps, reading a
  document keeps.
* `Config.Obtained.within`: configurations are within their limits.
-/

namespace Querier

/-! ## Limits -/

namespace Config

/-- The settings that have limits are within them. -/
structure Within (c : Config) : Prop where
  least_timeout : timeoutLimits.least ≤ c.networkTimeout
  timeout_most : c.networkTimeout ≤ timeoutLimits.most
  least_buffer : bufferLimits.least.toNat ≤ c.bufferSize.toNat

theorem within_standard : Within {} := ⟨by decide, by decide, by decide⟩

theorem least_apply_buffer (v : UInt16) :
    bufferLimits.least.toNat ≤ (bufferLimits.apply v).toNat := by
  show _ ≤ (max bufferLimits.least (min bufferLimits.most v)).toNat
  show _ ≤ (if _ then _ else _ : UInt16).toNat
  by_cases below : bufferLimits.least ≤ min bufferLimits.most v
  · rw [if_pos below]
    exact UInt16.le_iff_toNat_le.mp below
  · simp only [if_neg below, Nat.le_refl]

theorem apply_timeout (d : Duration) : timeoutLimits.least ≤ timeoutLimits.apply d ∧
    timeoutLimits.apply d ≤ timeoutLimits.most := by
  have order : timeoutLimits.least ≤ timeoutLimits.most := by decide
  exact ⟨Nat.le_max_left .., Nat.max_le.mpr ⟨order, Nat.min_le_left ..⟩⟩

theorem Within.set {c : Config} (h : c.Within) (s : Setting) : (c.set s).Within := by
  cases s with
  | networkTimeout d =>
      exact { h with
        least_timeout := (apply_timeout d).1
        timeout_most := (apply_timeout d).2 }
  | bufferSize v => exact { h with least_buffer := least_apply_buffer v }
  | _ => exact { h with }

end Config

/-! ## Reading -/

namespace SettingField

variable {α : Type} {P : α → Prop} {table : List (SettingField α)}

/-- Reading a field keeps a property of the configuration. -/
def Keeps (P : α → Prop) (f : SettingField α) : Prop :=
  ∀ j a a', P a → f.read j a = some a' → P a'

theorem readObject_induction {fields : List (String × Json)} (h : ∀ f ∈ table, Keeps P f)
    {a a' : α} (ha : P a) (hread : readObject fields table a = some a') : P a' := by
  induction table generalizing a with
  | nil =>
      cases hread
      exact ha
  | cons f fs ih =>
      have hrest : ∀ g ∈ fs, Keeps P g := fun g hg => h g (List.mem_cons_of_mem _ hg)
      rw [readObject] at hread
      split at hread
      · exact ih hrest ha hread
      · rename_i v _
        rcases Option.bind_eq_some_iff.mp hread with ⟨b, hb, htail⟩
        exact ih hrest (h f List.mem_cons_self v a b ha hb) htail
      · cases hread

theorem readList_induction {items : List Json} (h : ∀ f ∈ table, Keeps P f) {a a' : α}
    (ha : P a) (hread : readList table items a = some a') : P a' := by
  induction table generalizing items a with
  | nil =>
      cases items with
      | nil =>
          cases hread
          exact ha
      | cons v vs => cases hread
  | cons f fs ih =>
      cases items with
      | nil =>
          cases hread
          exact ha
      | cons v vs =>
          have hrest : ∀ g ∈ fs, Keeps P g := fun g hg => h g (List.mem_cons_of_mem _ hg)
          rw [readList] at hread
          rcases Option.bind_eq_some_iff.mp hread with ⟨b, hb, htail⟩
          exact ih hrest (h f List.mem_cons_self v a b ha hb) htail

theorem readTable_induction (h : ∀ f ∈ table, Keeps P f) {j : Json} {standard a : α}
    (hstandard : P standard) (hread : readTable table standard j = some a) : P a := by
  cases j with
  | object fields => exact readObject_induction h hstandard hread
  | list items => exact readList_induction h hstandard hread
  | _ => cases hread

end SettingField

namespace Config

/-- A field that is read into a setting. -/
theorem keeps_set {β : Type} (key : String) (value : Json → Option β) (setting : β → Setting)
    (write : Config → Json) :
    SettingField.Keeps Within ⟨key, fun j c => (value j).map fun v => c.set (setting v), write⟩ := by
  intro j c c' h hread
  rcases Option.map_eq_some_iff.mp hread with ⟨v, -, rfl⟩
  exact h.set (setting v)

theorem keeps_table : ∀ f ∈ table, SettingField.Keeps Within f := by
  simp only [table, List.forall_mem_cons]
  refine ⟨keeps_set _ Json.millis? .networkTimeout _, keeps_set _ Json.uInt16? .bufferSize _,
    keeps_set _ DnssecMode.ofJson? .dnssec _, keeps_set _ Json.bool? .dotToPort853 _,
    keeps_set _ Json.bool? .padding _, keeps_set _ Json.bool? .subnetHardening _,
    keeps_set _ Json.bool? .logCommonErrors _,
    keeps_set _ (Json.address? .v4) (fun a => .localV4 a.1 a.2) _,
    keeps_set _ (Json.address? .v6) (fun a => .localV6 a.1 a.2) _, ?_, List.forall_mem_nil _⟩
  -- the settings of the pool have no limits
  intro j c c' h hread
  rcases Option.map_eq_some_iff.mp hread with ⟨pool, -, rfl⟩
  exact { h with }

/-! ## All configurations -/

/-- The configurations that there are: the standard one, those that are read, and what
becomes of them when settings are changed. -/
inductive Obtained : Config → Prop where
  | standard : Obtained {}
  | read {j : Json} {c : Config} (h : ofJson? j = some c) : Obtained c
  | set {c : Config} (h : Obtained c) (s : Setting) : Obtained (c.set s)

theorem Obtained.within {c : Config} (h : c.Obtained) : c.Within := by
  induction h with
  | standard => exact within_standard
  | read hread => exact SettingField.readTable_induction keeps_table within_standard hread
  | set _ s ih => exact ih.set s

end Config

end Querier
