import Mainframe.Machine.Settings
import Mainframe.Text.Json

/-! Settings written as JSON text. A group of settings is an object or the list of its values in
order. What is left out has its standard value, and unknown members are passed over, but a
known member must not occur twice. -/

set_option autoImplicit false

namespace Mainframe

namespace JsonValue

def fields (names : List String) : JsonValue → Option (List (Option JsonValue))
  | .list items =>
    if items.length ≤ names.length then some ((List.range names.length).map (items[·]?))
    else none
  | .object members => do
    let known ← members.mapM fun (key, value) => key.map (·, value)
    names.mapM fun name =>
      match known.filter (·.1 == name) with
      | [] => some none
      | [(_, value)] => some (some value)
      | _ => none
  | _ => none

def orElse {α : Type} (standard : α) (read : JsonValue → Option α) : Option JsonValue → Option α
  | none => some standard
  | some json => read json

def asNatural (bound : Nat) : JsonValue → Option Nat
  | .natural value => if value < bound then some value else none
  | _ => none

def asBits (width : Nat) (json : JsonValue) : Option (BitVec width) :=
  (asNatural (1 <<< width) json).map (BitVec.ofNat width)

def asBool : JsonValue → Option Bool
  | .bool value => some value
  | _ => none

def asOption {α : Type} (read : JsonValue → Option α) : JsonValue → Option (Option α)
  | .null => some none
  | json => (read json).map some

end JsonValue

open JsonValue

def MemorySettings.ofJson (json : JsonValue) : Option MemorySettings := do
  let standard := MemorySettings.standard
  match ← fields ["size_words", "wrap_addresses"] json with
  | [size, wrap] =>
    return {
      sizeWords := ← orElse standard.sizeWords (asNatural (1 <<< 64)) size
      wrapsAddresses := ← orElse standard.wrapsAddresses asBool wrap }
  | _ => none

def ProcessorSettings.ofJson (json : JsonValue) : Option ProcessorSettings := do
  let standard := ProcessorSettings.standard
  match ← fields ["count", "page_size_mask", "start_ring", "start_halted", "monitor_mask",
      "user_mask", "monitor_exchange_package", "job_exchange_package"] json with
  | [count, pageSizeMask, startRing, startHalted, monitorMask, userMask, monitorPackage,
      jobPackage] =>
    return {
      count := ← orElse standard.count (asNatural (1 <<< 64)) count
      pageSizeMask := ← orElse standard.pageSizeMask (asBits 8) pageSizeMask
      startRing := ← orElse standard.startRing (asBits 8) startRing
      startHalted := ← orElse standard.startHalted asBool startHalted
      monitorMask := ← orElse standard.monitorMask (asBits 16) monitorMask
      userMask := ← orElse standard.userMask (asBits 16) userMask
      monitorPackage := ← orElse standard.monitorPackage (asOption (asBits 32)) monitorPackage
      jobPackage := ← orElse standard.jobPackage (asOption (asBits 32)) jobPackage }
  | _ => none

namespace Settings

def ofJson (json : JsonValue) : Option Settings := do
  match ← fields ["memory", "cpu"] json with
  | [memory, processors] =>
    return {
      memory := ← orElse .standard MemorySettings.ofJson memory
      processors := ← orElse .standard ProcessorSettings.ofJson processors }
  | _ => none

def parse (text : String) : Except SettingsError Settings :=
  match (JsonValue.parse text).bind ofJson with
  | some settings => .ok settings
  | none => .error .malformed

def read (text : String) : Except SettingsError Settings := do
  let settings ← parse text
  settings.validate
  return settings

end Settings

end Mainframe
