import Mathlib.Data.List.Nodup
import Querier.Proofs.Address.Text
import Querier.Proofs.Config

/-!
# Configurations are read as they were written

A configuration is written setting by setting, and read setting by setting into the standard one.
Since the keys are distinct, each setting finds the value that was written of it, so it is enough
to look at one setting at a time.

Only two settings are not read as they were. Spans of time are written in milliseconds, and what
is less than one is lost. Where a span has limits these are whole milliseconds, so rounding down
does not leave them, and the limits that are applied again when the span is read do nothing.

## Main results

* `SettingField.readTable_writeTable`: each setting reads what was written of it.
* `Config.ofJson?_toJson`: a configuration is read as it was, but for the parts of milliseconds.
* `Config.limits_and_form`: this and the limits, of all configurations there are.
-/

namespace Querier

/-! ## Tables -/

/-- A key that is there once has only the value it has there. -/
theorem Json.values_of_mem {fields : List (String × Json)} {key : String} {v : Json}
    (distinct : (fields.map Prod.fst).Nodup) (h : (key, v) ∈ fields) :
    Json.values fields key = [v] := by
  obtain ⟨front, back, rfl⟩ := List.append_of_mem h
  rw [List.map_append, List.map_cons, List.nodup_middle, ← List.map_append] at distinct
  have apart (field : String × Json) (hfield : field ∈ front ++ back) :
      ¬ (field.1 == key) = true := by
    intro same
    have there : field.1 ∈ (front ++ back).map Prod.fst := List.mem_map_of_mem hfield
    rw [beq_iff_eq.mp same] at there
    exact (List.nodup_cons.mp distinct).1 there
  have before : front.filter (fun field => field.1 == key) = [] :=
    List.filter_eq_nil_iff.mpr fun field hfield => apart field (List.mem_append_left _ hfield)
  have behind : back.filter (fun field => field.1 == key) = [] :=
    List.filter_eq_nil_iff.mpr fun field hfield => apart field (List.mem_append_right _ hfield)
  simp [Json.values, before, behind]

namespace SettingField

variable {α : Type} {table : List (SettingField α)}

theorem readTable_writeTable (distinct : (table.map SettingField.key).Nodup) (standard c : α) :
    readTable table standard (writeTable table c) =
      table.foldlM (fun a f => f.read (f.write c) a) standard := by
  have written (f : SettingField α) (hf : f ∈ table) :
      Json.values (table.map fun f => (f.key, f.write c)) f.key = [f.write c] := by
    apply Json.values_of_mem
    · rwa [List.map_map]
    · exact List.mem_map_of_mem hf
  -- the table is gone through, and its fields stay
  generalize hfields : (table.map fun f => (f.key, f.write c)) = fields at written
  rw [writeTable, readTable, hfields]
  clear hfields distinct
  induction table generalizing standard with
  | nil => rfl
  | cons f fs ih =>
      have hrest : readObject fields fs = fs.foldlM fun a f => f.read (f.write c) a :=
        funext fun a => ih a fun g hg => written g (List.mem_cons_of_mem _ hg)
      rw [readObject, written f List.mem_cons_self, List.foldlM_cons]
      simp only [hrest, Option.bind_eq_bind]

end SettingField

/-! ## Values -/

namespace Json

theorem below?_int {n limit : Nat} (h : n < limit) : (int n).below? limit = some n := if_pos h

theorem uInt64?_int (v : UInt64) : (int v.toNat).uInt64? = some v := by
  rw [uInt64?, below?_int v.toNat_lt, Option.map_some, UInt64.ofNat_toNat]

theorem uInt16?_int (v : UInt16) : (int v.toNat).uInt16? = some v := by
  rw [uInt16?, below?_int v.toNat_lt, Option.map_some, UInt16.ofNat_toNat]

theorem address?_text {a : IpAddress} {f : Family} (h : a.family = f) :
    (text a.toText).address? f = some ⟨a, h⟩ := by
  subst h
  simp only [address?, text?, IpAddress.ofTextIn?_toText, dif_pos]

end Json

theorem DnssecMode.ofJson?_name (m : DnssecMode) : ofJson? (.text m.name) = some m := by
  cases m <;> decide

namespace Duration

/-- A span of time without its last part of a millisecond. -/
def wholeMillis (d : Duration) : Duration := ofMillis d.toMillis

theorem toMillis_wholeMillis (d : Duration) : (wholeMillis d).toMillis = d.toMillis :=
  Nat.mul_div_cancel _ (by decide)

theorem wholeMillis_le (d : Duration) : wholeMillis d ≤ d := Nat.div_mul_le_self _ _

/-- Rounding down does not go below whole milliseconds. -/
theorem le_wholeMillis {d : Duration} {ms : Nat} (h : ofMillis ms ≤ d) :
    ofMillis ms ≤ wholeMillis d := by
  have : ms ≤ d.toMillis := (Nat.le_div_iff_mul_le (by decide)).mpr h
  exact Nat.mul_le_mul_right _ this

theorem millis?_ofMillis {d : Duration} (short : d < ofMillis UInt64.size) :
    (Json.ofMillis d).millis? = some (wholeMillis d) := by
  have small : d.toMillis < UInt64.size := (Nat.div_lt_iff_lt_mul (by decide)).mpr short
  rw [Json.ofMillis, Nat.mod_eq_of_lt small, Json.millis?, Json.below?_int small]
  rfl

end Duration

/-! ## The settings of a pool -/

namespace PoolConfig

/-- The settings without parts of a millisecond. -/
def rounded (p : PoolConfig) : PoolConfig :=
  { p with maxIdleTime := p.maxIdleTime.wholeMillis }

theorem ofJson?_toJson {p : PoolConfig} (short : p.maxIdleTime < Duration.ofMillis UInt64.size) :
    ofJson? p.toJson = some p.rounded := by
  rw [ofJson?, toJson, SettingField.readTable_writeTable (by decide)]
  simp only [table, List.foldlM_cons, List.foldlM_nil, Json.uInt64?_int,
    Duration.millis?_ofMillis short, Option.map_some, Option.bind_eq_bind, Option.bind_some,
    Option.pure_def]
  rfl

end PoolConfig

/-! ## All settings -/

namespace Config

/-- The configuration without parts of a millisecond. -/
def rounded (c : Config) : Config :=
  { c with networkTimeout := c.networkTimeout.wholeMillis, pool := c.pool.rounded }

theorem apply_wholeMillis {d : Duration} (least : timeoutLimits.least ≤ d)
    (most : d ≤ timeoutLimits.most) :
    timeoutLimits.apply d.wholeMillis = d.wholeMillis := by
  have least' : timeoutLimits.least ≤ d.wholeMillis := Duration.le_wholeMillis least
  have most' : d.wholeMillis ≤ timeoutLimits.most := Nat.le_trans d.wholeMillis_le most
  rw [Limits.apply, Nat.min_eq_right most', Nat.max_eq_right least']

theorem apply_buffer {v : UInt16} (h : bufferLimits.least.toNat ≤ v.toNat) :
    bufferLimits.apply v = v := by
  have most : v ≤ bufferLimits.most := UInt16.le_iff_toNat_le.mpr (Nat.le_of_lt_succ v.toNat_lt)
  have below : min bufferLimits.most v = v := by
    show (if bufferLimits.most ≤ v then _ else _ : UInt16) = v
    split
    · exact UInt16.le_antisymm (by assumption) most
    · rfl
  show max _ (min _ _) = _
  rw [below]
  exact if_pos (UInt16.le_iff_toNat_le.mpr h)

theorem ofJson?_toJson {c : Config} (h : c.Within)
    (short : c.pool.maxIdleTime < Duration.ofMillis UInt64.size) :
    ofJson? c.toJson = some c.rounded := by
  have timeout : c.networkTimeout < Duration.ofMillis UInt64.size :=
    Nat.lt_of_le_of_lt h.timeout_most (by decide)
  rw [ofJson?, toJson, SettingField.readTable_writeTable (by decide)]
  simp only [table, List.foldlM_cons, List.foldlM_nil, Json.uInt16?_int,
    Duration.millis?_ofMillis timeout, DnssecMode.ofJson?_name, Json.bool?,
    Json.address?_text c.localV4_family, Json.address?_text c.localV6_family,
    PoolConfig.ofJson?_toJson short, Option.map_some, Option.bind_eq_bind, Option.bind_some,
    Option.pure_def, set, apply_wholeMillis h.least_timeout h.timeout_most,
    apply_buffer h.least_buffer]
  rfl

theorem toJson_rounded (c : Config) : c.rounded.toJson = c.toJson := by
  have written (d : Duration) : Json.ofMillis d.wholeMillis = Json.ofMillis d := by
    rw [Json.ofMillis, Json.ofMillis, Duration.toMillis_wholeMillis]
  simp only [toJson, PoolConfig.toJson, SettingField.writeTable, table, PoolConfig.table,
    List.map_cons, List.map_nil, rounded, PoolConfig.rounded, written]

/-- **Limits and form.** Every configuration there is keeps to the limits. If its idle time can be
written at all it is read from its own form as it is, but for the parts of milliseconds of its two
spans of time, and what was read has the same form again. -/
theorem limits_and_form {c : Config} (h : c.Obtained) :
    Duration.ofMillis 1 ≤ c.networkTimeout ∧ c.networkTimeout ≤ Duration.ofMillis 3600000 ∧
      512 ≤ c.bufferSize ∧
      (c.pool.maxIdleTime < Duration.ofMillis UInt64.size →
        ofJson? c.toJson = some c.rounded ∧ c.rounded.toJson = c.toJson) := by
  have within := h.within
  have buffer : 512 ≤ c.bufferSize := UInt16.le_iff_toNat_le.mpr within.least_buffer
  refine ⟨within.least_timeout, within.timeout_most, buffer, fun short => ?_⟩
  exact ⟨ofJson?_toJson within short, toJson_rounded c⟩

/-- Changes of settings, one after the other. -/
def setAll (c : Config) : List Setting → Config
  | [] => c
  | s :: ss => (c.set s).setAll ss

theorem Obtained.setAll {c : Config} (h : c.Obtained) (ss : List Setting) :
    (c.setAll ss).Obtained := by
  induction ss generalizing c with
  | nil => exact h
  | cons s ss ih => exact ih (h.set s)

/-- Spans of time with parts of milliseconds, a buffer size below its limit, and an address with
zeros that its text leaves out. -/
def unevenSettings : List Setting :=
  [.networkTimeout 2500000999, .bufferSize 100, .maxIdleTime 10000700000,
    .localV6 ⟨.v6, [32, 1, 13, 184, 0, 0, 0, 0, 0, 0, 0, 0, 0, 0, 0, 1], rfl⟩ rfl]

theorem limits_and_form_uneven :
    (setAll {} unevenSettings).Obtained ∧
      (setAll {} unevenSettings).pool.maxIdleTime < Duration.ofMillis UInt64.size ∧
      512 ≤ (setAll {} unevenSettings).bufferSize ∧
      ofJson? (setAll {} unevenSettings).toJson = some (setAll {} unevenSettings).rounded ∧
      (setAll {} unevenSettings).rounded.networkTimeout = Duration.ofMillis 2500 ∧
      (setAll {} unevenSettings).rounded.pool.maxIdleTime = Duration.ofMillis 10000 := by
  have obtained := Obtained.standard.setAll unevenSettings
  have short : (setAll {} unevenSettings).pool.maxIdleTime < Duration.ofMillis UInt64.size := by
    decide
  obtain ⟨-, -, buffer, form⟩ := limits_and_form obtained
  exact ⟨obtained, short, buffer, (form short).1, by decide, by decide⟩

end Config

end Querier
