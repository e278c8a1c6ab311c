import BeaconHarness.Proofs.Datum.Alike
import BeaconHarness.Proofs.Engine.Payload
import BeaconHarness.Proofs.Node.Answers

/-!
# Payloads that come back

The JSON form of a payload is read back by its keys, byte strings from hexadecimal texts and numbers
from quantities. A quantity has no zero in front unless it is zero, and an entry that not every fork
has stands in the form exactly where the payload has the field, be it empty or zero.

Main statement: the form of a payload tells it from every other one of its fork
(`Payload.toJson_reads_back`).
-/

namespace BeaconHarness.Engine

open Consensus (Withdrawal executionPayload)
open Node (bytesAt bytesAt_of_entry)
open Ssz (Value)
open Datum (AlikeEntry)

/-! ## Quantities -/

/-- Whether a datum is a quantity: hexadecimal digits behind the mark, and no zero in front of
them except for zero itself. -/
inductive IsQuantity : Datum → Prop where
  | zero : IsQuantity (.str "0x0")
  | positive {c : Char} {cs : List Char} : c ≠ '0' → (∀ d ∈ c :: cs, d ∈ Text.Hex.digits) →
    IsQuantity (.str (String.ofList ('0' :: 'x' :: c :: cs)))

namespace Payload

theorem isQuantity_quantity (n : Nat) : IsQuantity (quantity n) := by
  by_cases hn : n = 0
  · subst hn
    have hzero : Text.Integer.hexadecimal (0 : Nat) = "0x0" := by decide
    rw [quantity, hzero]
    exact .zero
  · obtain ⟨c, cs, hdigits⟩ := List.exists_cons_of_ne_nil (Nat.toDigits_ne_nil (b := 16) (n := n))
    have hhead : (Nat.toDigits 16 n).head? ≠ some '0' :=
      Text.Integer.head?_toDigits .hexadecimal hn
    have hmem : ∀ d ∈ Nat.toDigits 16 n, d ∈ Text.Hex.digits :=
      Text.Integer.toDigits_mem_digits .hexadecimal n
    have htext : Text.Integer.hexadecimal n = String.ofList ('0' :: 'x' :: c :: cs) := by
      rw [← hdigits, ← Text.Integer.toList_hexadecimal, String.ofList_toList]
    rw [hdigits] at hhead hmem
    rw [quantity, htext]
    exact .positive (fun hc => hhead (by rw [hc]; rfl)) hmem

/-! ## Reading -/

/-- The number that a datum stands for, if it is not negative. -/
def natural (d : Datum) : Except Failure Nat := do
  let n ← d.integer
  if 0 ≤ n then return n.toNat else .error .malformed

/-- The number in an entry. -/
def naturalAt (d : Datum) (key : String) : Except Failure Nat := do natural (← d.entry key)

/-- What is read of the items of a datum, one by one. -/
def listOf {α : Type} (read : Datum → Except Failure α) (d : Datum) : Except Failure (List α) := do
  (← d.items).mapM read

/-- What is read of an entry, if it is there. -/
def optionalAt {α : Type} (read : Datum → Except Failure α) (d : Datum) (key : String) :
    Except Failure (Option α) :=
  match d.entry key with
  | .ok x => (read x).map some
  | .error _ => .ok none

/-- The withdrawal that a datum is the JSON form of. -/
def readWithdrawal (d : Datum) : Except Failure Withdrawal := do
  let index ← naturalAt d "index"
  let validatorIndex ← naturalAt d "validatorIndex"
  let address ← bytesAt d "address"
  let amount ← naturalAt d "amount"
  return ⟨index, validatorIndex, address, amount⟩

/-- The payload that a datum is the JSON form of. -/
def ofJson (d : Datum) : Except Failure Payload := do
  let parentHash ← bytesAt d "parentHash"
  let feeRecipient ← bytesAt d "feeRecipient"
  let stateRoot ← bytesAt d "stateRoot"
  let receiptsRoot ← bytesAt d "receiptsRoot"
  let logsBloom ← bytesAt d "logsBloom"
  let prevRandao ← bytesAt d "prevRandao"
  let blockNumber ← naturalAt d "blockNumber"
  let gasLimit ← naturalAt d "gasLimit"
  let gasUsed ← naturalAt d "gasUsed"
  let timestamp ← naturalAt d "timestamp"
  let extraData ← bytesAt d "extraData"
  let baseFeePerGas ← naturalAt d "baseFeePerGas"
  let blockHash ← bytesAt d "blockHash"
  let transactions ← listOf Datum.hexBytes (← d.entry "transactions")
  let withdrawals ← optionalAt (listOf readWithdrawal) d "withdrawals"
  let blobGasUsed ← optionalAt natural d "blobGasUsed"
  let excessBlobGas ← optionalAt natural d "excessBlobGas"
  return {
    parentHash, feeRecipient, stateRoot, receiptsRoot, logsBloom, prevRandao, blockNumber,
    gasLimit, gasUsed, timestamp, extraData, baseFeePerGas, blockHash, transactions,
    withdrawals, blobGasUsed, excessBlobGas }

section

variable {d : Datum} {key : String}

theorem natural_quantity (n : Nat) : natural (quantity n) = .ok n := by
  unfold natural quantity
  rw [Datum.integer_hexadecimal]
  show (if 0 ≤ (n : Int) then Except.ok (n : Int).toNat else .error .malformed) = _
  rw [if_pos (Int.natCast_nonneg n), Int.toNat_natCast]

theorem naturalAt_of_entry {n : Nat} (h : d.entry key = .ok (quantity n)) :
    naturalAt d key = .ok n := by
  unfold naturalAt
  rw [h]
  exact natural_quantity n

/-- A list is read if its items are. -/
theorem listOf_map {α : Type} {read : Datum → Except Failure α} {write : α → Datum}
    (h : ∀ a, read (write a) = .ok a) (as : List α) :
    listOf read (.list (as.map write)) = .ok as := by
  show (as.map write).mapM read = .ok as
  induction as with
  | nil => rfl
  | cons a as ih =>
    rw [List.map_cons, List.mapM_cons, h, ih]
    rfl

theorem optionalAt_of_entry {α : Type} {read : Datum → Except Failure α} {write : α → Datum}
    (h : ∀ a, read (write a) = .ok a) {x : Option α}
    (hentry : d.entry key = (x.map write).elim (.error (.missingKey key)) .ok) :
    optionalAt read d key = .ok x := by
  unfold optionalAt
  rw [hentry]
  cases x with
  | none => rfl
  | some a =>
    show (read (write a)).map some = _
    rw [h]
    rfl

theorem readWithdrawal_withdrawalJson (w : Withdrawal) :
    readWithdrawal (withdrawalJson w) = .ok w := by
  let d := withdrawalJson w
  have hindex : naturalAt d "index" = .ok w.index := naturalAt_of_entry rfl
  have hvalidator : naturalAt d "validatorIndex" = .ok w.validatorIndex := naturalAt_of_entry rfl
  have haddress : bytesAt d "address" = .ok w.address := bytesAt_of_entry rfl
  have hamount : naturalAt d "amount" = .ok w.amount := naturalAt_of_entry rfl
  unfold readWithdrawal
  simp only [bind, Except.bind, d, hindex, hvalidator, haddress, hamount]
  rfl

/-! ## Forms -/

variable {e : Payload} {f : Fork}

/-- The entries that not every form has are those that the payload has. -/
theorem optional_toJson (e : Payload) :
    e.toJson.entry "withdrawals" =
        (e.withdrawals.map fun ws => .list (ws.map withdrawalJson)).elim
          (.error (.missingKey "withdrawals")) .ok ∧
      e.toJson.entry "blobGasUsed" = (e.blobGasUsed.map quantity).elim
        (.error (.missingKey "blobGasUsed")) .ok ∧
      e.toJson.entry "excessBlobGas" = (e.excessBlobGas.map quantity).elim
        (.error (.missingKey "excessBlobGas")) .ok := by
  obtain ⟨_, _, _, _, _, _, _, _, _, _, _, _, _, _, ws, used, excess⟩ := e
  cases ws <;> cases used <;> cases excess <;> exact ⟨rfl, rfl, rfl⟩

/-- The form of a payload is read as the payload. -/
theorem ofJson_toJson (e : Payload) : ofJson e.toJson = .ok e := by
  let d := e.toJson
  have hparent : bytesAt d "parentHash" = .ok e.parentHash := bytesAt_of_entry rfl
  have hrecipient : bytesAt d "feeRecipient" = .ok e.feeRecipient := bytesAt_of_entry rfl
  have hstate : bytesAt d "stateRoot" = .ok e.stateRoot := bytesAt_of_entry rfl
  have hreceipts : bytesAt d "receiptsRoot" = .ok e.receiptsRoot := bytesAt_of_entry rfl
  have hbloom : bytesAt d "logsBloom" = .ok e.logsBloom := bytesAt_of_entry rfl
  have hrandao : bytesAt d "prevRandao" = .ok e.prevRandao := bytesAt_of_entry rfl
  have hnumber : naturalAt d "blockNumber" = .ok e.blockNumber := naturalAt_of_entry rfl
  have hlimit : naturalAt d "gasLimit" = .ok e.gasLimit := naturalAt_of_entry rfl
  have hused : naturalAt d "gasUsed" = .ok e.gasUsed := naturalAt_of_entry rfl
  have htime : naturalAt d "timestamp" = .ok e.timestamp := naturalAt_of_entry rfl
  have hextra : bytesAt d "extraData" = .ok e.extraData := bytesAt_of_entry rfl
  have hfee : naturalAt d "baseFeePerGas" = .ok e.baseFeePerGas := naturalAt_of_entry rfl
  have hhash : bytesAt d "blockHash" = .ok e.blockHash := bytesAt_of_entry rfl
  have htransactions : d.entry "transactions" = .ok (.list (e.transactions.map hex)) := rfl
  have hraw : listOf Datum.hexBytes (.list (e.transactions.map hex)) = .ok e.transactions :=
    listOf_map Datum.hexBytes_marked _
  obtain ⟨hws, hblob, hexcess⟩ := optional_toJson e
  have hws : optionalAt (listOf readWithdrawal) d "withdrawals" = .ok e.withdrawals :=
    optionalAt_of_entry (listOf_map readWithdrawal_withdrawalJson) hws
  have hblob : optionalAt natural d "blobGasUsed" = .ok e.blobGasUsed :=
    optionalAt_of_entry natural_quantity hblob
  have hexcess : optionalAt natural d "excessBlobGas" = .ok e.excessBlobGas :=
    optionalAt_of_entry natural_quantity hexcess
  unfold ofJson
  simp only [bind, Except.bind, d, hparent, hrecipient, hstate, hreceipts, hbloom, hrandao, hnumber,
    hlimit, hused, htime, hextra, hfee, hhash, htransactions, hraw, hws, hblob, hexcess]
  rfl

/-! ## Keys -/

/-- The keys of the form of a payload of a fork. -/
def keys (f : Fork) : List String :=
  ["parentHash", "feeRecipient", "stateRoot", "receiptsRoot", "logsBloom", "prevRandao",
    "blockNumber", "gasLimit", "gasUsed", "timestamp", "extraData", "baseFeePerGas", "blockHash",
    "transactions"]
  ++ (if f.atLeast .capella then ["withdrawals"] else [])
  ++ (if f.atLeast .deneb then ["blobGasUsed"] else [])
  ++ (if f.atLeast .deneb then ["excessBlobGas"] else [])

/-- The keys whose entries are quantities. -/
def quantityKeys (f : Fork) : List String :=
  ["blockNumber", "gasLimit", "gasUsed", "timestamp", "baseFeePerGas"]
  ++ (if f.atLeast .deneb then ["blobGasUsed", "excessBlobGas"] else [])

/-- The keys whose entries in the form of a withdrawal are quantities. -/
def withdrawalQuantityKeys : List String := ["index", "validatorIndex", "amount"]

theorem map_fst_optional (name : String) (d : Option Datum) :
    (optional name d).map Prod.fst = if d.isSome then [name] else [] := by
  cases d <;> rfl

theorem map_fst_fields (h : e.Suits f) : e.fields.map Prod.fst = keys f := by
  unfold fields keys
  rw [List.map_append, List.map_append, List.map_append, map_fst_optional, map_fst_optional,
    map_fst_optional, Option.isSome_map, Option.isSome_map, Option.isSome_map, h.withdrawals,
    h.blobGasUsed, h.excessBlobGas]
  rfl

theorem exists_quantity (h : e.Suits f) {key : String} (hkey : key ∈ quantityKeys f) :
    ∃ d, e.toJson.entry key = .ok d ∧ IsQuantity d := by
  rcases List.mem_append.mp hkey with hkey | hkey
  · simp only [List.mem_cons, List.not_mem_nil, or_false] at hkey
    rcases hkey with rfl | rfl | rfl | rfl | rfl <;> exact ⟨_, rfl, isQuantity_quantity _⟩
  · obtain ⟨-, hused, hexcess⟩ := optional_toJson e
    split at hkey
    · rename_i hdeneb
      simp only [List.mem_cons, List.not_mem_nil, or_false] at hkey
      rcases hkey with rfl | rfl
      · obtain ⟨n, hn⟩ := Option.isSome_iff_exists.mp (h.blobGasUsed.trans hdeneb)
        rw [hn] at hused
        exact ⟨_, hused, isQuantity_quantity n⟩
      · obtain ⟨n, hn⟩ := Option.isSome_iff_exists.mp (h.excessBlobGas.trans hdeneb)
        rw [hn] at hexcess
        exact ⟨_, hexcess, isQuantity_quantity n⟩
    · exact absurd hkey List.not_mem_nil

theorem exists_withdrawalQuantity {items : List Datum}
    (hitems : e.toJson.entry "withdrawals" = .ok (.list items)) {item : Datum}
    (hitem : item ∈ items)
    {key : String} (hkey : key ∈ withdrawalQuantityKeys) :
    ∃ d, item.entry key = .ok d ∧ IsQuantity d := by
  obtain ⟨hws, -, -⟩ := optional_toJson e
  rw [hws] at hitems
  cases hwithdrawals : e.withdrawals with
  | none =>
    rw [hwithdrawals] at hitems
    exact nomatch hitems
  | some ws =>
    rw [hwithdrawals] at hitems
    obtain rfl := Datum.list.inj (Except.ok.inj hitems)
    obtain ⟨w, -, rfl⟩ := List.mem_map.mp hitem
    simp only [withdrawalQuantityKeys, List.mem_cons, List.not_mem_nil, or_false] at hkey
    rcases hkey with rfl | rfl | rfl <;> exact ⟨_, rfl, isQuantity_quantity _⟩

/-! ## Forms of one fork -/

theorem alike_withdrawalJson (v w : Withdrawal) :
    (withdrawalJson v).Alike (withdrawalJson w) := by
  have hnames : ["index", "validatorIndex", "address", "amount"].Nodup := by decide
  refine .record hnames ?_
  exact .cons ⟨rfl, .str _ _⟩ (.cons ⟨rfl, .str _ _⟩
    (.cons ⟨rfl, .str _ _⟩ (.cons ⟨rfl, .str _ _⟩ .nil)))

theorem alike_map {α : Type} {write : α → Datum} (h : ∀ a b, (write a).Alike (write b))
    (as bs : List α) : (Datum.list (as.map write)).Alike (.list (bs.map write)) := by
  refine .list fun x hx y hy => ?_
  obtain ⟨a, -, rfl⟩ := List.mem_map.mp hx
  obtain ⟨b, -, rfl⟩ := List.mem_map.mp hy
  exact h a b

theorem alike_optional {α : Type} {write : α → Datum} (h : ∀ a b, (write a).Alike (write b))
    (name : String) {x y : Option α} (hxy : x.isSome = y.isSome) :
    List.Forall₂ AlikeEntry (optional name (x.map write)) (optional name (y.map write)) := by
  cases x with
  | none =>
    cases y with
    | none => exact .nil
    | some b => exact nomatch hxy
  | some a =>
    cases y with
    | none => exact nomatch hxy
    | some b => exact .cons ⟨rfl, h a b⟩ .nil

/-- The forms of two payloads of one fork are built alike. -/
theorem alike_toJson {e' : Payload} (h : e.Suits f) (h' : e'.Suits f) :
    e.toJson.Alike e'.toJson := by
  have hnames : (e.fields.map Prod.fst).Nodup := by
    rw [map_fst_fields h]
    cases f <;> decide
  have hhex (b c : Bytes) : (hex b).Alike (hex c) := .str _ _
  have hquantity (m n : Nat) : (quantity m).Alike (quantity n) := .str _ _
  refine .record hnames (List.rel_append (List.rel_append (List.rel_append ?_ ?_) ?_) ?_)
  · exact .cons ⟨rfl, hhex _ _⟩ <| .cons ⟨rfl, hhex _ _⟩ <| .cons ⟨rfl, hhex _ _⟩ <|
      .cons ⟨rfl, hhex _ _⟩ <| .cons ⟨rfl, hhex _ _⟩ <| .cons ⟨rfl, hhex _ _⟩ <|
      .cons ⟨rfl, hquantity _ _⟩ <| .cons ⟨rfl, hquantity _ _⟩ <| .cons ⟨rfl, hquantity _ _⟩ <|
      .cons ⟨rfl, hquantity _ _⟩ <| .cons ⟨rfl, hhex _ _⟩ <| .cons ⟨rfl, hquantity _ _⟩ <|
      .cons ⟨rfl, hhex _ _⟩ <| .cons ⟨rfl, alike_map hhex _ _⟩ .nil
  · exact alike_optional (alike_map alike_withdrawalJson) _
      (h.withdrawals.trans h'.withdrawals.symm)
  · exact alike_optional hquantity _ (h.blobGasUsed.trans h'.blobGasUsed.symm)
  · exact alike_optional hquantity _ (h.excessBlobGas.trans h'.excessBlobGas.symm)

/-- The forms of two payloads of one fork are the same only if the payloads are equal. -/
theorem same_toJson_iff {e' : Payload} (h : e.Suits f) (h' : e'.Suits f) :
    e.toJson.same e'.toJson = true ↔ e = e' := by
  rw [(alike_toJson h h').same_iff]
  constructor
  · intro heq
    have hread := ofJson_toJson e
    rw [heq, ofJson_toJson e'] at hread
    exact (Except.ok.inj hread).symm
  · rintro rfl
    rfl

end

/-! ## Main statement -/

/-- Every value under the schema of payloads of a fork is read as a payload that stands for it. Its
form is read as the payload again, has just the keys of the fork, and has a quantity wherever a
number stands. Two forms of the fork are the same only if the values are equal. -/
theorem toJson_reads_back {p : Preset} {f : Fork} {v : Value}
    (hv : (executionPayload p f).admits v = true) :
    ∃ e, ofObject? ⟨executionPayload p f, v⟩ = .ok e ∧ e.toValue = v ∧ ofJson e.toJson = .ok e ∧
      (∃ entries, e.toJson = .dict entries ∧ entries.map Prod.fst = (keys f).map .str) ∧
      (∀ key ∈ quantityKeys f, ∃ d, e.toJson.entry key = .ok d ∧ IsQuantity d) ∧
      (∀ items, e.toJson.entry "withdrawals" = .ok (.list items) → ∀ item ∈ items,
        ∀ key ∈ withdrawalQuantityKeys, ∃ d, item.entry key = .ok d ∧ IsQuantity d) ∧
      ∀ w e', (executionPayload p f).admits w = true →
        ofObject? ⟨executionPayload p f, w⟩ = .ok e' →
        (e.toJson.same e'.toJson = true ↔ v = w) := by
  obtain ⟨e, rfl, he⟩ := exists_of_admits hv
  refine ⟨e, ofObject?_toValue p he, rfl, ofJson_toJson e, ⟨_, rfl, ?_⟩,
    fun key hkey => exists_quantity he hkey,
    fun items hitems item hitem key hkey => exists_withdrawalQuantity hitems hitem hkey, ?_⟩
  · rw [← map_fst_fields he, List.map_map, List.map_map]
    rfl
  · intro w e' hw hread
    obtain ⟨other, rfl, hother⟩ := exists_of_admits hw
    obtain rfl : other = e' := Except.ok.inj ((ofObject?_toValue p hother).symm.trans hread)
    rw [same_toJson_iff he hother]
    constructor
    · rintro rfl
      rfl
    · intro heq
      have hsame := ofObject?_toValue p he
      rw [heq, ofObject?_toValue p hother] at hsame
      exact (Except.ok.inj hsame).symm

/-- Two deneb payloads with the largest base fee, no blobs and two transactions, one of them empty,
in the one order and the other. -/
theorem toJson_reads_back_twoTransactions :
    let e : Payload := {
      parentHash := Bytes.zeros 32, feeRecipient := Bytes.zeros 20, stateRoot := Bytes.zeros 32
      receiptsRoot := Bytes.zeros 32, logsBloom := Bytes.zeros 256, prevRandao := Bytes.zeros 32
      blockNumber := 0, gasLimit := 30000000, gasUsed := 16, timestamp := 1, extraData := [0xff]
      baseFeePerGas := Bytes.capacity 32 - 1, blockHash := Bytes.zeros 32,
      transactions := [[], [2, 0]]
      withdrawals := some [⟨0, 7, Bytes.zeros 20, 1⟩], blobGasUsed := some 0
      excessBlobGas := some 0 }
    let e' : Payload := { e with transactions := [[2, 0], []] }
    ofObject? ⟨executionPayload .minimal .deneb, e.toValue⟩ = .ok e ∧ ofJson e.toJson = .ok e ∧
      (∃ d, e.toJson.entry "blobGasUsed" = .ok d ∧ IsQuantity d) ∧
      e.toJson.same e'.toJson = false := by
  intro e e'
  have hv : (executionPayload .minimal .deneb).admits e.toValue = true := by decide +kernel
  have hw : (executionPayload .minimal .deneb).admits e'.toValue = true := by decide +kernel
  have he : e.Suits .deneb := ⟨rfl, rfl, rfl⟩
  have he' : e'.Suits .deneb := ⟨rfl, rfl, rfl⟩
  have hread := ofObject?_toValue .minimal he
  obtain ⟨found, hfound, -, hback, -, hquantity, -, hsame⟩ := toJson_reads_back hv
  obtain rfl : e = found := Except.ok.inj (hread.symm.trans hfound)
  refine ⟨hfound, hback, hquantity "blobGasUsed" (by decide), ?_⟩
  rw [Bool.eq_false_iff, Ne, hsame _ e' hw (ofObject?_toValue .minimal he')]
  intro heq
  simp [e, e', toValue, rawValue] at heq

end Payload

end BeaconHarness.Engine
