import Mathlib

/-! # The functions a hook may import (`Enum.h`)

For every function of the hook API its signature in value type codes: the result first, then the
parameters (`0x7F` is `i32`, `0x7E` is `i64`). -/

namespace Xahau.Hook

/-- `hook_api::import_whitelist`. -/
def importWhitelist : List (String × List UInt8) :=
  [("_g", [0x7F, 0x7F, 0x7F]),
   ("accept", [0x7E, 0x7F, 0x7F, 0x7E]),
   ("rollback", [0x7E, 0x7F, 0x7F, 0x7E]),
   ("util_raddr", [0x7E, 0x7F, 0x7F, 0x7F, 0x7F]),
   ("util_accid", [0x7E, 0x7F, 0x7F, 0x7F, 0x7F]),
   ("util_verify", [0x7E, 0x7F, 0x7F, 0x7F, 0x7F, 0x7F, 0x7F]),
   ("util_sha512h", [0x7E, 0x7F, 0x7F, 0x7F, 0x7F]),
   ("util_keylet", [0x7E, 0x7F, 0x7F, 0x7F, 0x7F, 0x7F, 0x7F, 0x7F, 0x7F, 0x7F]),
   ("sto_validate", [0x7E, 0x7F, 0x7F]),
   ("sto_subfield", [0x7E, 0x7F, 0x7F, 0x7F]),
   ("sto_subarray", [0x7E, 0x7F, 0x7F, 0x7F]),
   ("sto_emplace", [0x7E, 0x7F, 0x7F, 0x7F, 0x7F, 0x7F, 0x7F, 0x7F]),
   ("sto_erase", [0x7E, 0x7F, 0x7F, 0x7F, 0x7F, 0x7F]),
   ("etxn_burden", [0x7E]),
   ("etxn_details", [0x7E, 0x7F, 0x7F]),
   ("etxn_fee_base", [0x7E, 0x7F, 0x7F]),
   ("etxn_reserve", [0x7E, 0x7F]),
   ("etxn_generation", [0x7E]),
   ("etxn_nonce", [0x7E, 0x7F, 0x7F]),
   ("emit", [0x7E, 0x7F, 0x7F, 0x7F, 0x7F]),
   ("float_set", [0x7E, 0x7F, 0x7E]),
   ("float_multiply", [0x7E, 0x7E, 0x7E]),
   ("float_mulratio", [0x7E, 0x7E, 0x7F, 0x7F, 0x7F]),
   ("float_negate", [0x7E, 0x7E]),
   ("float_compare", [0x7E, 0x7E, 0x7E, 0x7F]),
   ("float_sum", [0x7E, 0x7E, 0x7E]),
   ("float_sto", [0x7E, 0x7F, 0x7F, 0x7F, 0x7F, 0x7F, 0x7F, 0x7E, 0x7F]),
   ("float_sto_set", [0x7E, 0x7F, 0x7F]),
   ("float_invert", [0x7E, 0x7E]),
   ("float_divide", [0x7E, 0x7E, 0x7E]),
   ("float_one", [0x7E]),
   ("float_mantissa", [0x7E, 0x7E]),
   ("float_sign", [0x7E, 0x7E]),
   ("float_int", [0x7E, 0x7E, 0x7F, 0x7F]),
   ("float_log", [0x7E, 0x7E]),
   ("float_root", [0x7E, 0x7E, 0x7F]),
   ("fee_base", [0x7E]),
   ("ledger_seq", [0x7E]),
   ("ledger_last_time", [0x7E]),
   ("ledger_last_hash", [0x7E, 0x7F, 0x7F]),
   ("ledger_nonce", [0x7E, 0x7F, 0x7F]),
   ("ledger_keylet", [0x7E, 0x7F, 0x7F, 0x7F, 0x7F, 0x7F, 0x7F]),
   ("hook_account", [0x7E, 0x7F, 0x7F]),
   ("hook_hash", [0x7E, 0x7F, 0x7F, 0x7F]),
   ("hook_param_set", [0x7E, 0x7F, 0x7F, 0x7F, 0x7F, 0x7F, 0x7F]),
   ("hook_param", [0x7E, 0x7F, 0x7F, 0x7F, 0x7F]),
   ("hook_again", [0x7E]),
   ("hook_skip", [0x7E, 0x7F, 0x7F, 0x7F]),
   ("hook_pos", [0x7E]),
   ("slot", [0x7E, 0x7F, 0x7F, 0x7F]),
   ("slot_clear", [0x7E, 0x7F]),
   ("slot_count", [0x7E, 0x7F]),
   ("slot_set", [0x7E, 0x7F, 0x7F, 0x7F]),
   ("slot_size", [0x7E, 0x7F]),
   ("slot_subarray", [0x7E, 0x7F, 0x7F, 0x7F]),
   ("slot_subfield", [0x7E, 0x7F, 0x7F, 0x7F]),
   ("slot_type", [0x7E, 0x7F, 0x7F]),
   ("slot_float", [0x7E, 0x7F]),
   ("state_set", [0x7E, 0x7F, 0x7F, 0x7F, 0x7F]),
   ("state_foreign_set", [0x7E, 0x7F, 0x7F, 0x7F, 0x7F, 0x7F, 0x7F, 0x7F, 0x7F]),
   ("state", [0x7E, 0x7F, 0x7F, 0x7F, 0x7F]),
   ("state_foreign", [0x7E, 0x7F, 0x7F, 0x7F, 0x7F, 0x7F, 0x7F, 0x7F, 0x7F]),
   ("trace", [0x7E, 0x7F, 0x7F, 0x7F, 0x7F, 0x7F]),
   ("trace_num", [0x7E, 0x7F, 0x7F, 0x7E]),
   ("trace_float", [0x7E, 0x7F, 0x7F, 0x7E]),
   ("otxn_burden", [0x7E]),
   ("otxn_field", [0x7E, 0x7F, 0x7F, 0x7F]),
   ("otxn_generation", [0x7E]),
   ("otxn_id", [0x7E, 0x7F, 0x7F, 0x7F]),
   ("otxn_type", [0x7E]),
   ("otxn_slot", [0x7E, 0x7F]),
   ("otxn_param", [0x7E, 0x7F, 0x7F, 0x7F, 0x7F]),
   ("meta_slot", [0x7E, 0x7F])]

/-- `hook_api::import_whitelist_1`: the functions added by `featureHooks1`. -/
def importWhitelist1 : List (String × List UInt8) :=
  [("xpop_slot", [0x7E, 0x7F, 0x7F])]

/-- The signature of an import: the first table is asked before the second. -/
def importSignature (name : String) : Option (List UInt8) :=
  match importWhitelist.lookup name with
  | some signature => some signature
  | none => importWhitelist1.lookup name

end Xahau.Hook
