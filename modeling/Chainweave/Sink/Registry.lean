import Mathlib
import Chainweave.Core.Config
import Chainweave.Lib.Prog
import Chainweave.Sink.Abi

/-!
# The ABI registry

`crates/chainweave-sink/src/abi.rs`: how the registry is built from the configured
contracts. `AlloyCrate` is what it asks of the crate `alloy`.

* `fromStr_iff`: a standard is known here exactly if the configuration check knows it.
  The spellings with a hyphen never match, since the text has none any more.
* `fromConfigEntries_cases`: contracts that passed the check make a registry, unless an
  address is there twice, in whatever spelling.
-/
namespace Chainweave.Postgres

open Chainweave.Chain Chainweave.Config Stateful

/-! ## The source -/

/-- mirrors crates/chainweave-sink/src/abi.rs:26-31 -/
inductive AbiStandard where
  | erc20
  | erc721
  | uniswapV3Pool
  deriving DecidableEq, Repr

/-- mirrors crates/chainweave-sink/src/abi.rs:33-38 -/
structure AbiRegistryEntry where
  address : Address
  standard : AbiStandard
  decoderVersion : String
  deriving DecidableEq, Repr

/-- mirrors crates/chainweave-sink/src/abi.rs:56-69 -/
inductive AbiRegistryError where
  | invalidStandard (value : String)
  | invalidAddress (value error : String)
  | invalidBundledEvent (definition reason : String)
  | duplicateAddress (address : String)
  deriving DecidableEq, Repr

/-- mirrors crates/chainweave-sink/src/abi.rs:56-69 -/
def AbiRegistryError.message : AbiRegistryError → String
  | .invalidStandard value => "invalid ABI standard " ++ value
  | .invalidAddress value error => "invalid EVM address " ++ value ++ ": " ++ error
  | .invalidBundledEvent definition reason =>
    "invalid bundled event definition " ++ definition ++ ": " ++ reason
  | .duplicateAddress address => "duplicate ABI registry address " ++ address

namespace AbiStandard

/-- mirrors crates/chainweave-sink/src/abi.rs:228-235 -/
def asStr : AbiStandard → String
  | .erc20 => "erc20"
  | .erc721 => "erc721"
  | .uniswapV3Pool => "uniswap_v3_pool"

/-- mirrors crates/chainweave-sink/src/abi.rs:237-253 -/
def eventSignatures : AbiStandard → List String
  | .erc20 => [
      "event Transfer(address indexed from,address indexed to,uint256 value)",
      "event Approval(address indexed owner,address indexed spender,uint256 value)"]
  | .erc721 => [
      "event Transfer(address indexed from,address indexed to,uint256 indexed tokenId)",
      "event Approval(address indexed owner,address indexed approved,uint256 indexed tokenId)"]
  | .uniswapV3Pool => [
      "event Swap(address indexed sender,address indexed recipient,int256 amount0,int256 amount1," ++
        "uint160 sqrtPriceX96,uint128 liquidity,int24 tick)",
      "event Mint(address sender,address indexed owner,int24 indexed tickLower," ++
        "int24 indexed tickUpper,uint128 amount,uint256 amount0,uint256 amount1)",
      "event Burn(address indexed owner,int24 indexed tickLower,int24 indexed tickUpper," ++
        "uint128 amount,uint256 amount0,uint256 amount1)"]

/-- mirrors crates/chainweave-sink/src/abi.rs:256-269 -/
def fromStr (value : String) : Except AbiRegistryError AbiStandard :=
  let standard := normalizedStandard value
  if OneOf standard ["erc20", "erc_20", "erc-20"] then .ok .erc20
  else if OneOf standard ["erc721", "erc_721", "erc-721"] then .ok .erc721
  else if OneOf standard ["uniswapv3pool", "uniswap_v3_pool", "uniswap-v3-pool", "uniswap_v3"] then
    .ok .uniswapV3Pool
  else .error (.invalidStandard value)

end AbiStandard

/-- What is asked of the crate `alloy`. -/
structure AlloyCrate where
  /-- `Event::parse` -/
  parseEvent : String → Except String AbiEvent
  /-- `str::parse::<Address>` -/
  parseAddress : String → Except String Address
  /-- `str::parse::<B256>` -/
  parseHash : String → Except String BlockHash

/-- A text of the right length, behind an optional `0x`, is read as the bytes it spells. The event
definitions are well formed. -/
structure AlloyCrate.Documented (alloy : AlloyCrate) : Prop where
  parseEvent : ∀ standard : AbiStandard, ∀ definition ∈ standard.eventSignatures,
    ∃ event, alloy.parseEvent definition = .ok event
  parseAddress : ∀ text, isFixedHex 40 text = true →
    alloy.parseAddress text = .ok (BitVec.ofNat 160 (Hex.value (Hex.strip0x text.toList)))
  parseHash : ∀ text, isFixedHex 64 text = true →
    alloy.parseHash text = .ok (BitVec.ofNat 256 (Hex.value (Hex.strip0x text.toList)))

/-- mirrors crates/chainweave-sink/src/abi.rs:394-405 -/
def hexAddress (value : Address) : String := "0x" ++ value.toHex

section
variable (alloy : AlloyCrate)

/-- mirrors crates/chainweave-sink/src/abi.rs:292-297 -/
def parseEvent (definition : String) : Except AbiRegistryError AbiEvent :=
  (alloy.parseEvent definition).mapError (.invalidBundledEvent definition)

/-- mirrors crates/chainweave-sink/src/abi.rs:383-392 -/
def parseAddress (value : String) : Except AbiRegistryError Address :=
  (alloy.parseAddress value).mapError (.invalidAddress value)

/-- mirrors crates/chainweave-sink/src/abi.rs:212-225 -/
def ContractDecoder.new (standard : AbiStandard) (decoderVersion : String) :
    Except AbiRegistryError ContractDecoder := do
  let events ← standard.eventSignatures.mapM (parseEvent alloy)
  pure { decoderVersion, events }

/-- mirrors crates/chainweave-sink/src/abi.rs:375-377 -/
def defaultDecoderVersion (standard : AbiStandard) : String := standard.asStr ++ ":v1"

/-- The loop of `AbiRegistry::new`, over the contracts so far.
mirrors crates/chainweave-sink/src/abi.rs:72-90 -/
def AbiRegistry.insertEntries (contracts : Address → Option ContractDecoder) :
    List AbiRegistryEntry → Except AbiRegistryError AbiRegistry
  | [] => .ok ⟨contracts⟩
  | entry :: entries => do
    let decoder ← ContractDecoder.new alloy entry.standard entry.decoderVersion
    if (contracts entry.address).isSome then .error (.duplicateAddress (hexAddress entry.address))
    else AbiRegistry.insertEntries (Function.update contracts entry.address (some decoder)) entries

/-- mirrors crates/chainweave-sink/src/abi.rs:72-90 -/
def AbiRegistry.new (entries : List AbiRegistryEntry) : Except AbiRegistryError AbiRegistry :=
  AbiRegistry.insertEntries alloy (fun _ => none) entries

/-- mirrors crates/chainweave-sink/src/abi.rs:100-109 -/
def registryEntry (contract : AbiContractConfig) : Except AbiRegistryError AbiRegistryEntry := do
  let standard ← AbiStandard.fromStr contract.standard
  let address ← parseAddress alloy contract.address
  pure { address, standard, decoderVersion := contract.decoderVersion.getD (defaultDecoderVersion standard) }

/-- mirrors crates/chainweave-sink/src/abi.rs:97-114 -/
def AbiRegistry.fromConfigEntries (entries : List AbiContractConfig) :
    Except AbiRegistryError AbiRegistry := do
  AbiRegistry.new alloy (← entries.mapM (registryEntry alloy))

end

/-! ## Standards -/

/-- No hyphen is left. -/
theorem normalizedStandard_hyphen (value : String) : '-' ∉ normalizedStandard value := by
  intro hmem
  obtain ⟨c, -, hc⟩ := List.mem_map.1 hmem
  split at hc
  · cases hc
  · rename_i hother
    exact hother (.inr hc)

/-- The spellings of the two lists, the hyphens apart. -/
theorem spellings {α : Type} {x a b c d e f g h i j : α} (hc : x ≠ c) (hf : x ≠ f) (hi : x ≠ i) :
    (x ∈ [a, b, c] ∨ x ∈ [d, e, f] ∨ x ∈ [g, h, i, j]) ↔ x ∈ [a, b, d, e, j, h, g] := by
  simp only [List.mem_cons, List.not_mem_nil, or_false]
  tauto

/-- A standard is known here exactly if the check knows it. -/
theorem fromStr_iff {value : String} :
    (∃ standard, AbiStandard.fromStr value = .ok standard) ↔ validateAbiStandard value = .ok () := by
  have hspelling : ∀ text : String, '-' ∈ text.toList → normalizedStandard value ≠ text.toList :=
    fun text hmem heq => normalizedStandard_hyphen value (heq ▸ hmem)
  unfold AbiStandard.fromStr validateAbiStandard
  rw [rejectIf_ok, decide_eq_false_iff_not, not_not]
  refine Iff.trans ?_ (spellings (hspelling "erc-20" (by decide)) (hspelling "erc-721" (by decide))
    (hspelling "uniswap-v3-pool" (by decide)))
  dsimp only [List.map_cons, List.map_nil]
  split
  · rename_i h
    exact ⟨fun _ => .inl h, fun _ => ⟨_, rfl⟩⟩
  · split
    · rename_i h
      exact ⟨fun _ => .inr (.inl h), fun _ => ⟨_, rfl⟩⟩
    · split
      · rename_i h
        exact ⟨fun _ => .inr (.inr h), fun _ => ⟨_, rfl⟩⟩
      · rename_i herc20 herc721 huniswap
        refine ⟨fun ⟨_, h⟩ => (by cases h), fun h => ?_⟩
        obtain h | h | h := h
        · exact absurd h herc20
        · exact absurd h herc721
        · exact absurd h huniswap

/-! ## The registry -/

section
variable {alloy : AlloyCrate}

theorem ContractDecoder.new_ok (h : alloy.Documented) (standard : AbiStandard) (decoderVersion : String) :
    ∃ decoder, ContractDecoder.new alloy standard decoderVersion = .ok decoder := by
  obtain ⟨events, hevents⟩ := mapM_exists (f := parseEvent alloy) (l := standard.eventSignatures)
    fun definition hdefinition => by
      obtain ⟨event, hevent⟩ := h.parseEvent standard definition hdefinition
      exact ⟨event, by simp [parseEvent, hevent, Except.mapError]⟩
  exact ⟨⟨decoderVersion, events⟩, by simp [ContractDecoder.new, hevents, Bind.bind, Except.bind, pure,
    Except.pure]⟩

/-- What the registry has of an entry. -/
def HoldsEntry (alloy : AlloyCrate) (registry : AbiRegistry) (entry : AbiRegistryEntry) : Prop :=
  ∃ decoder, ContractDecoder.new alloy entry.standard entry.decoderVersion = .ok decoder ∧
    registry.contracts entry.address = some decoder

/-- Entries are inserted until an address repeats: no entry before that one repeats another. -/
theorem insertEntries_cases (h : alloy.Documented) (entries : List AbiRegistryEntry)
    (contracts : Address → Option ContractDecoder) :
    ((∃ registry, AbiRegistry.insertEntries alloy contracts entries = .ok registry ∧
        (∀ entry ∈ entries, HoldsEntry alloy registry entry) ∧
        ∀ address, address ∉ entries.map (·.address) → registry.contracts address = contracts address) ∧
      (entries.map (·.address)).Nodup ∧ ∀ entry ∈ entries, contracts entry.address = none) ∨
    ∃ before entry after, entries = before ++ entry :: after ∧
      (before.map (·.address)).Nodup ∧ (∀ e ∈ before, contracts e.address = none) ∧
      ((contracts entry.address).isSome = true ∨ entry.address ∈ before.map (·.address)) ∧
      AbiRegistry.insertEntries alloy contracts entries =
        .error (.duplicateAddress (hexAddress entry.address)) := by
  induction entries generalizing contracts with
  | nil => exact .inl ⟨⟨⟨contracts⟩, rfl, by simp, by simp⟩, .nil, by simp⟩
  | cons entry entries ih =>
    obtain ⟨decoder, hdecoder⟩ := ContractDecoder.new_ok h entry.standard entry.decoderVersion
    have hstep : AbiRegistry.insertEntries alloy contracts (entry :: entries) =
        if (contracts entry.address).isSome then .error (.duplicateAddress (hexAddress entry.address))
        else AbiRegistry.insertEntries alloy
          (Function.update contracts entry.address (some decoder)) entries := by
      rw [AbiRegistry.insertEntries, hdecoder]
      rfl
    by_cases hthere : (contracts entry.address).isSome = true
    · refine .inr ⟨[], entry, entries, rfl, .nil, by simp, .inl hthere, ?_⟩
      rw [hstep, if_pos hthere]
    · rw [if_neg hthere] at hstep
      rw [hstep]
      -- What is inserted later is not this address.
      have hlater : ∀ {others : List AbiRegistryEntry},
          (∀ other ∈ others,
            Function.update contracts entry.address (some decoder) other.address = none) →
          entry.address ∉ others.map (·.address) ∧ ∀ other ∈ others, contracts other.address = none := by
        intro others hfresh
        have hne : ∀ other ∈ others, other.address ≠ entry.address := by
          intro other hother heq
          have := hfresh other hother
          rw [heq, Function.update_self] at this
          cases this
        refine ⟨fun hmem => ?_, fun other hother => ?_⟩
        · obtain ⟨other, hother, heq⟩ := List.mem_map.1 hmem
          exact hne other hother heq
        · have := hfresh other hother
          rwa [Function.update_of_ne (hne other hother)] at this
      have hfree : contracts entry.address = none := by simpa using hthere
      obtain ⟨⟨registry, hregistry, hholds, hothers⟩, hnodup, hfresh⟩ |
        ⟨before, other, after, rfl, hnodup, hfresh, hrepeated, herror⟩ :=
          ih (Function.update contracts entry.address (some decoder))
      · obtain ⟨hnew, hfresh⟩ := hlater hfresh
        refine .inl ⟨⟨registry, hregistry, ?_, fun address haddress => ?_⟩,
          List.nodup_cons.2 ⟨hnew, hnodup⟩, List.forall_mem_cons.2 ⟨hfree, hfresh⟩⟩
        · refine List.forall_mem_cons.2 ⟨⟨decoder, hdecoder, ?_⟩, hholds⟩
          rw [hothers _ hnew, Function.update_self]
        · rw [List.map_cons, List.mem_cons, not_or] at haddress
          rw [hothers _ haddress.2, Function.update_of_ne haddress.1]
      · obtain ⟨hnew, hfresh⟩ := hlater hfresh
        refine .inr ⟨entry :: before, other, after, rfl, List.nodup_cons.2 ⟨hnew, hnodup⟩,
          List.forall_mem_cons.2 ⟨hfree, hfresh⟩, ?_, herror⟩
        by_cases haddress : other.address = entry.address
        · exact .inr (by simp [haddress])
        · rw [Function.update_of_ne haddress] at hrepeated
          exact hrepeated.imp_right (List.mem_cons_of_mem _)

/-! ## From the configuration -/

/-- The address that a text spells. -/
def addressOf (text : String) : Address := BitVec.ofNat 160 (Hex.value (Hex.strip0x text.toList))

/-- A text without an `0x`, in lower case. -/
def spelling (text : String) : List Char := (Hex.strip0x text.toList).map Char.toLower

/-- Two texts spell one address exactly if they differ in case and an `0x` only. -/
theorem addressOf_eq_iff {a b : String} (ha : isFixedHex 40 a = true) (hb : isFixedHex 40 b = true) :
    addressOf a = addressOf b ↔ spelling a = spelling b := by
  have ha := of_decide_eq_true ha
  have hb := of_decide_eq_true hb
  have halt := Hex.value_lt (Hex.strip0x a.toList)
  have hblt := Hex.value_lt (Hex.strip0x b.toList)
  rw [ha.1] at halt
  rw [hb.1] at hblt
  rw [spelling, spelling, ← Hex.value_eq_iff ha.2 hb.2 (ha.1.trans hb.1.symm), addressOf, addressOf]
  refine ⟨fun heq => ?_, fun heq => by rw [heq]⟩
  have hmod := congrArg BitVec.toNat heq
  rwa [BitVec.toNat_ofNat, BitVec.toNat_ofNat, Nat.mod_eq_of_lt (by omega), Nat.mod_eq_of_lt (by omega)]
    at hmod

theorem nodup_addressOf {contracts : List AbiContractConfig}
    (h : ∀ contract ∈ contracts, isFixedHex 40 contract.address = true) :
    (contracts.map (addressOf ·.address)).Nodup ↔ (contracts.map (spelling ·.address)).Nodup := by
  rw [List.Nodup, List.Nodup, List.pairwise_map, List.pairwise_map]
  exact List.Pairwise.iff_of_mem fun ha hb => not_congr (addressOf_eq_iff (h _ ha) (h _ hb))

/-- What the checks of the configuration ask of a contract. -/
def Checked (contract : AbiContractConfig) : Prop :=
  isFixedHex 40 contract.address = true ∧ validateAbiStandard contract.standard = .ok ()

/-- The decoder of a contract. -/
def DecodedBy (alloy : AlloyCrate) (registry : AbiRegistry) (contract : AbiContractConfig) : Prop :=
  ∃ standard, AbiStandard.fromStr contract.standard = .ok standard ∧
    HoldsEntry alloy registry ⟨addressOf contract.address, standard,
      contract.decoderVersion.getD (defaultDecoderVersion standard)⟩

/-- The entry of a contract that passed. -/
def entryOf (contract : AbiContractConfig) : AbiRegistryEntry :=
  let standard := (AbiStandard.fromStr contract.standard).toOption.getD .erc20
  ⟨addressOf contract.address, standard, contract.decoderVersion.getD (defaultDecoderVersion standard)⟩

theorem entryOf_eq {contract : AbiContractConfig} {standard : AbiStandard}
    (h : AbiStandard.fromStr contract.standard = .ok standard) :
    entryOf contract = ⟨addressOf contract.address, standard,
      contract.decoderVersion.getD (defaultDecoderVersion standard)⟩ := by
  simp [entryOf, h, Except.toOption]

theorem registryEntry_ok (h : alloy.Documented) {contract : AbiContractConfig}
    (hchecked : Checked contract) : registryEntry alloy contract = .ok (entryOf contract) := by
  obtain ⟨standard, hstandard⟩ := fromStr_iff.2 hchecked.2
  have haddress : parseAddress alloy contract.address = .ok (addressOf contract.address) := by
    simp only [parseAddress, h.parseAddress _ hchecked.1, Except.mapError]
    rfl
  rw [entryOf_eq hstandard]
  simp only [registryEntry, hstandard, haddress]
  rfl

/-- **Contracts that passed the check make a registry**, unless an address is there twice, and then the
error is of the first contract that repeats one. -/
theorem fromConfigEntries_cases (h : alloy.Documented) {contracts : List AbiContractConfig}
    (hchecked : ∀ contract ∈ contracts, Checked contract) :
    ((∃ registry, AbiRegistry.fromConfigEntries alloy contracts = .ok registry ∧
        (∀ contract ∈ contracts, DecodedBy alloy registry contract) ∧
        ∀ address, address ∉ contracts.map (addressOf ·.address) → registry.contracts address = none) ∧
      (contracts.map (addressOf ·.address)).Nodup) ∨
    ∃ before contract after, contracts = before ++ contract :: after ∧
      (before.map (addressOf ·.address)).Nodup ∧
      addressOf contract.address ∈ before.map (addressOf ·.address) ∧
      AbiRegistry.fromConfigEntries alloy contracts =
        .error (.duplicateAddress (hexAddress (addressOf contract.address))) := by
  have hentries : AbiRegistry.fromConfigEntries alloy contracts =
      AbiRegistry.insertEntries alloy (fun _ => none) (contracts.map entryOf) := by
    have hmap := mapM_ok (f := registryEntry alloy) (g := entryOf)
      fun contract hcontract => registryEntry_ok h (hchecked contract hcontract)
    rw [AbiRegistry.fromConfigEntries, hmap]
    rfl
  have haddresses : ∀ l : List AbiContractConfig,
      (l.map entryOf).map (·.address) = l.map (addressOf ·.address) := fun l => List.map_map
  rw [hentries]
  obtain ⟨⟨registry, hregistry, hholds, hothers⟩, hnodup, -⟩ |
    ⟨before, entry, after, hsplit, hnodup, -, hrepeated, herror⟩ :=
      insertEntries_cases h (contracts.map entryOf) fun _ => none
  · rw [haddresses] at hothers hnodup
    refine .inl ⟨⟨registry, hregistry, fun contract hcontract => ?_, hothers⟩, hnodup⟩
    obtain ⟨standard, hstandard⟩ := fromStr_iff.2 (hchecked contract hcontract).2
    refine ⟨standard, hstandard, ?_⟩
    rw [← entryOf_eq hstandard]
    exact hholds _ (List.mem_map_of_mem hcontract)
  · obtain ⟨first, second, rfl, rfl, hsecond⟩ := List.map_eq_append_iff.1 hsplit
    obtain ⟨contract, rest, rfl, rfl, rfl⟩ := List.map_eq_cons_iff.1 hsecond
    rw [haddresses] at hnodup hrepeated
    refine .inr ⟨first, contract, rest, rfl, hnodup, ?_, herror⟩
    exact hrepeated.resolve_left (by simp)

end

end Chainweave.Postgres
