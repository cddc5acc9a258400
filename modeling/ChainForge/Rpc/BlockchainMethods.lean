import ChainForge.Lib.Hex
import ChainForge.Lib.Machine
import ChainForge.Rpc.Answers

/-!
# The JSON-RPC methods and their answers

`BlockchainRpcMethodsImpl` of `modules/rpc/src/blockchain_rpc_methods.cpp`, and the answers of the server
that it is registered with.  The data behind the methods are mocked in the source; the answers are
what clients see.

`params[0]` throws if `params` is neither a list nor empty; an exception of a method becomes an
internal error.

* `methods_answer`            all methods of the blockchain have one outcome;
* `post_answered`             **every POST is answered**: along every run of a server with such methods,
                              and for every body, with one JSON-RPC response;
* `block_number_echoed_iff`   **which block numbers come back**: those that are written as the server
                              writes them.
-/

set_option linter.unusedSectionVars false

namespace ChainForge
namespace Rpc
open Text Machine

/-! ## access to parameters -/

section
variable {D : Type}

def typeName : Json D → String
  | .null => "null"
  | .boolean _ => "boolean"
  | .integer _ | .double _ => "number"
  | .string _ => "string"
  | .array _ => "array"
  | .object _ => "object"

/-- `size()`; `empty()` is that there are none -/
def size : Json D → Nat
  | .null => 0
  | .array items => items.length
  | .object fields => fields.length
  | _ => 1

def indexError : String :=
  "[json.exception.type_error.305] cannot use operator[] with a numeric argument with "

def booleanError : String := "[json.exception.type_error.302] type must be boolean, but is "

/-- `params[i]`, within the list -/
def param (params : Json D) (i : Nat) : Except Str (Json D) :=
  match params with
  | .array items => .ok (items[i]?.getD .null)
  | j => .error (str (indexError ++ typeName j))

/-- `get<bool>()` -/
def asBool : Json D → Except Str Bool
  | .boolean b => .ok b
  | j => .error (str (booleanError ++ typeName j))

/-- an object with these fields -/
def fieldsOf (fields : List (String × Json D)) : Json D :=
  .object (fields.foldl (fun fs p => Json.setField (str p.1) p.2 fs) [])

def text (s : String) : Json D := .string (str s)

/-- `0x` and `n` zeros -/
def zeros (n : Nat) : Str := str "0x" ++ List.replicate n 48

end

/-! ## the methods -/

def numberToHex (number : UInt64) : Str := str "0x" ++ hexText number.toNat

def hexToNumber (hex : Str) : UInt64 :=
  if hex.length < 3 ∨ hex.take 2 ≠ str "0x" then 0
  else
    match stoull16 (hex.drop 2) with
    | .ok number => number
    | .error _ => 0

section
variable {D : Type}

/-- a method of the class; an error is the text of an exception -/
abbrev Method (D : Type) := Json D → Except Str (Response D)

def resultOf (value : Json D) : Response D := { result := some value }

def invalidParams (message : String) : Response D := { error := some ⟨-32602, str message, none⟩ }

structure BlockchainRpcMethodsImpl (D : Type) where
  chainId : UInt64 := 1
  networkVersion : Str := str "1"
  mockBlocks : UMap Str (Json D)
  mockTransactions : UMap Str (Json D) := ∅
  mockBalances : UMap Str Str

def emptyTrie : String := "0x56e81f171bcc55a6ff8345e692c0f86e5b48e01b996cadc001622fb5e363b421"
def firstAccount : String := "0x742d35cc6634c0532925a3b844bc454e4438f44e"
def secondAccount : String := "0x742d35cc6634c0532925a3b844bc454e4438f44f"

/-- `now` is the reading of `std::time` -/
def createMockBlock (now : UInt64) (number : UInt64) (hash : Str) : Json D :=
  fieldsOf [("number", .string (numberToHex number)), ("hash", .string hash),
    ("parentHash", .string (zeros 64)), ("nonce", .string (zeros 16)),
    ("sha3Uncles", text "0x1dcc4de8dec75d7aab85b567b6ccd41ad312451b948a7413f0a142fd40d49347"),
    ("logsBloom", .string (zeros 512)), ("transactionsRoot", text emptyTrie),
    ("stateRoot", .string (zeros 64)), ("receiptsRoot", text emptyTrie), ("miner", .string (zeros 40)),
    ("difficulty", text "0x0"), ("totalDifficulty", text "0x0"), ("extraData", text "0x"),
    ("size", text "0x3e8"), ("gasLimit", text "0x6691b7"), ("gasUsed", text "0x0"),
    ("timestamp", .string (numberToHex now)), ("transactions", .array []), ("uncles", .array [])]

/-- a method whose first parameter is a string -/
def stringMethod (message : String) (params : Json D) (run : Str → Except Str (Response D)) :
    Except Str (Response D) :=
  if size params = 0 then .ok (invalidParams message)
  else do
    match ← param params 0 with
    | .string s => run s
    | _ => return invalidParams message

namespace BlockchainRpcMethodsImpl

def make (now : UInt64) : BlockchainRpcMethodsImpl D where
  mockBalances := ((∅ : UMap Str Str).insert (str firstAccount) (str "0x1000000000000000000")).insert
    (str secondAccount) (str "0x500000000000000000")
  mockBlocks := (∅ : UMap Str (Json D)).insert (zeros 64) (createMockBlock now 0 (zeros 64))

variable (m : BlockchainRpcMethodsImpl D) (toUInt64 : D → UInt64) (now : UInt64)

/-- `include_transactions` has no effect but the exception of its conversion -/
def ethGetBlockByHash : Method D := fun params =>
  stringMethod "Block hash required" params fun blockHash => do
    if size params > 1 then
      let _includeTransactions ← asBool (← param params 1)
    return resultOf ((m.mockBlocks.lookup blockHash).getD .null)

/-- the block number that a string stands for -/
def blockNumberOf (s : Str) : UInt64 :=
  if s = str "latest" then 0
  else if s = str "earliest" then 0
  else if s = str "pending" then 1
  else hexToNumber s

/-- `toUInt64` is the conversion of a floating point number -/
def ethGetBlockByNumber : Method D := fun params =>
  if size params = 0 then .ok (invalidParams "Block number required")
  else do
    match ← param params 0 with
    | .string s => return resultOf (createMockBlock now (blockNumberOf s) (zeros 64))
    | .integer n => return resultOf (createMockBlock now (UInt64.ofInt n) (zeros 64))
    | .double x => return resultOf (createMockBlock now (toUInt64 x) (zeros 64))
    | _ => return invalidParams "Invalid block number format"

def ethBlockNumber : Method D := fun _ => .ok (resultOf (.string (numberToHex 0)))

def ethGetTransactionByHash : Method D := fun params =>
  stringMethod "Transaction hash required" params fun txHash =>
    .ok (resultOf ((m.mockTransactions.lookup txHash).getD .null))

def ethGetTransactionReceipt : Method D := fun params =>
  stringMethod "Transaction hash required" params fun txHash =>
    .ok (resultOf (fieldsOf [("transactionHash", .string txHash), ("transactionIndex", text "0x0"),
      ("blockHash", .string (zeros 64)), ("blockNumber", text "0x0"), ("from", text firstAccount),
      ("to", text secondAccount), ("cumulativeGasUsed", text "0x5208"), ("gasUsed", text "0x5208"),
      ("contractAddress", .null), ("logs", .array []), ("logsBloom", .string (zeros 512)),
      ("status", text "0x1")]))

def ethSendRawTransaction : Method D := fun params =>
  stringMethod "Raw transaction data required" params fun _ => .ok (resultOf (.string (zeros 64)))

def ethGetBalance : Method D := fun params =>
  stringMethod "Account address required" params fun address =>
    .ok (resultOf (.string ((m.mockBalances.lookup address).getD (str "0x0"))))

def ethGetTransactionCount : Method D := fun params =>
  stringMethod "Account address required" params fun _ => .ok (resultOf (text "0x0"))

def netVersion : Method D := fun _ => .ok (resultOf (.string m.networkVersion))
def ethChainId : Method D := fun _ => .ok (resultOf (.string (numberToHex m.chainId)))
def ethGasPrice : Method D := fun _ => .ok (resultOf (text "0x3b9aca00"))
def web3ClientVersion : Method D := fun _ => .ok (resultOf (text "ChainForge/v0.1.0"))

/-- all methods of the interface, with their names -/
def methods : List (String × Method D) :=
  [("eth_getBlockByHash", m.ethGetBlockByHash),
   ("eth_getBlockByNumber", ethGetBlockByNumber toUInt64 now), ("eth_blockNumber", ethBlockNumber),
   ("eth_getTransactionByHash", m.ethGetTransactionByHash),
   ("eth_getTransactionReceipt", ethGetTransactionReceipt),
   ("eth_sendRawTransaction", ethSendRawTransaction), ("eth_getBalance", m.ethGetBalance),
   ("eth_getTransactionCount", ethGetTransactionCount), ("net_version", m.netVersion),
   ("eth_chainId", m.ethChainId), ("eth_gasPrice", ethGasPrice),
   ("web3_clientVersion", web3ClientVersion)]

end BlockchainRpcMethodsImpl

/-! ## values that are printed -/

theorem fieldsOf_printable {fields : List (String × Json D)}
    (hkeys : ∀ key ∈ fields.map Prod.fst, utf8 (str key) = true)
    (hvalues : ∀ v ∈ fields.map Prod.snd, v.Printable) : (fieldsOf fields).Printable := by
  have hfold : ∀ fs : Json.Fields D, (Json.object fs).Printable →
      (Json.object (fields.foldl (fun fs p => Json.setField (str p.1) p.2 fs) fs)).Printable := by
    induction fields with
    | nil => exact fun fs hfs => hfs
    | cons p fields ih =>
      intro fs hfs
      obtain ⟨hkey, hkeys⟩ := List.forall_mem_cons.mp hkeys
      obtain ⟨hvalue, hvalues⟩ := List.forall_mem_cons.mp hvalues
      exact ih hkeys hvalues _ (hfs.setField hkey hvalue)
  exact hfold [] .empty

theorem utf8_numberToHex (n : UInt64) : utf8 (numberToHex n) = true := by
  have hdigits : ascii (hexText n.toNat) = true := by
    refine List.all_eq_true.mpr fun c hc => decide_eq_true ?_
    have hdigit := (isHexDigit_iff c).mp ((hexText_spec n.toNat).2.1 c hc)
    rw [UInt8.lt_iff_toNat_lt]
    show c.toNat < 128
    omega
  refine utf8_of_ascii ?_
  rw [numberToHex, ascii_append, hdigits]
  rfl

theorem utf8_zeros (n : Nat) : utf8 (zeros n) = true := by
  have hdigits : ascii (List.replicate n 48) = true :=
    List.all_eq_true.mpr fun c hc => decide_eq_true (List.eq_of_mem_replicate hc ▸ by decide)
  refine utf8_of_ascii ?_
  rw [zeros, ascii_append, hdigits]
  rfl

theorem text_printable {s : String} (h : utf8 (str s) = true) : (text s : Json D).Printable := .string h

theorem createMockBlock_printable (now number : UInt64) {hash : Str} (hhash : utf8 hash = true) :
    (createMockBlock now number hash : Json D).Printable := by
  have hempty : (Json.array [] : Json D).Printable := .array (List.forall_mem_nil _)
  have hzeros : ∀ n, (Json.string (zeros n) : Json D).Printable := fun n => .string (utf8_zeros n)
  refine fieldsOf_printable ?_ ?_
  · simp only [List.map_cons, List.map_nil]
    decide
  · simp only [List.map_cons, List.map_nil, List.forall_mem_cons]
    exact ⟨.string (utf8_numberToHex number), .string hhash, hzeros 64, hzeros 16,
      text_printable (by decide +kernel), hzeros 512, text_printable (by decide +kernel), hzeros 64,
      text_printable (by decide +kernel), hzeros 40, text_printable (by decide +kernel), text_printable (by decide +kernel),
      text_printable (by decide +kernel), text_printable (by decide +kernel), text_printable (by decide +kernel),
      text_printable (by decide +kernel), .string (utf8_numberToHex now), hempty, hempty, List.forall_mem_nil _⟩

theorem single_resultOf {value : Json D} (h : value.Printable) : Single (resultOf value) where
  version := rfl
  one := rfl
  printable := toJson_printable utf8_version (fun _ hv => Option.some.inj hv ▸ h) nofun nofun

theorem single_invalidParams {message : String} (h : utf8 (str message) = true) :
    Single (invalidParams message : Response D) :=
  single_error (by decide) h

/-! ## the methods of the blockchain -/

def typeNames : List String := ["null", "boolean", "number", "string", "array", "object"]

theorem typeName_mem (j : Json D) : typeName j ∈ typeNames := by
  cases j <;> simp [typeName, typeNames]

theorem ascii_typeName (j : Json D) : ascii (str (typeName j)) = true := by
  have hall : (typeNames.all fun name => ascii (str name)) = true := by decide
  exact List.all_eq_true.mp hall _ (typeName_mem j)

theorem ascii_indexError : ascii (str indexError) = true := by decide +kernel

theorem ascii_booleanError : ascii (str booleanError) = true := by decide +kernel

/-- an error of the library ends with the kind of the value -/
theorem utf8_typeError {message : String} (h : ascii (str message) = true) (j : Json D) :
    utf8 (str (message ++ typeName j)) = true := by
  have happend : str (message ++ typeName j) = str message ++ str (typeName j) := by
    unfold str
    rw [String.toList_append, List.map_append]
  refine utf8_of_ascii ?_
  rw [happend, ascii_append, h, ascii_typeName]
  rfl

theorem sound_param {params : Json D} (h : params.Printable) (i : Nat) :
    Sound Json.Printable (param params i) := by
  cases h with
  | @array items hitems =>
    refine .ok ?_
    cases hi : items[i]? with
    | none => exact .null
    | some j => exact hitems j (List.mem_of_getElem? hi)
  | _ => exact .error (utf8_typeError ascii_indexError _)

theorem sound_asBool (j : Json D) : Sound (fun _ => True) (asBool j) := by
  cases j with
  | boolean b => exact .ok trivial
  | _ => exact .error (utf8_typeError ascii_booleanError _)

theorem sound_stringMethod {message : String} (hmessage : utf8 (str message) = true)
    {params : Json D} (hparams : params.Printable) {run : Str → Except Str (Response D)}
    (hrun : ∀ s, utf8 s = true → Sound Single (run s)) :
    Sound Single (stringMethod message params run) := by
  unfold stringMethod
  split
  · exact .ok (single_invalidParams hmessage)
  · refine (sound_param hparams 0).bind fun j hj => ?_
    cases hj with
    | string hs => exact hrun _ hs
    | _ => exact .ok (single_invalidParams hmessage)

theorem sound_getBlockByNumber (toUInt64 : D → UInt64) (now : UInt64) {params : Json D}
    (hparams : params.Printable) :
    Sound Single (BlockchainRpcMethodsImpl.ethGetBlockByNumber toUInt64 now params) := by
  have hblock : ∀ number, Single (resultOf (createMockBlock now number (zeros 64)) : Response D) :=
    fun number => single_resultOf (createMockBlock_printable now number (utf8_zeros 64))
  unfold BlockchainRpcMethodsImpl.ethGetBlockByNumber
  split
  · exact .ok (single_invalidParams (by decide))
  · refine (sound_param hparams 0).bind fun j _ => ?_
    cases j with
    | string s => exact .ok (hblock _)
    | integer n => exact .ok (hblock _)
    | double x => exact .ok (hblock _)
    | _ => exact .ok (single_invalidParams (by decide))

/-- the data behind the methods -/
structure BlockchainRpcMethodsImpl.Printed (m : BlockchainRpcMethodsImpl D) : Prop where
  network : utf8 m.networkVersion = true
  blocks : ∀ hash block, m.mockBlocks.lookup hash = some block → block.Printable
  transactions : ∀ hash tx, m.mockTransactions.lookup hash = some tx → tx.Printable
  balances : ∀ address balance, m.mockBalances.lookup address = some balance → utf8 balance = true

theorem make_printed (now : UInt64) : (.make now : BlockchainRpcMethodsImpl D).Printed where
  network := by
    show utf8 (str "1") = true
    decide
  blocks := by
    intro hash block h
    have h : ((∅ : UMap Str (Json D)).insert (zeros 64) (createMockBlock now 0 (zeros 64))).lookup hash
        = some block := h
    rw [UMap.lookup_insert] at h
    split at h
    · cases h
      exact createMockBlock_printable now 0 (utf8_zeros 64)
    · cases h
  transactions := by
    intro hash tx h
    cases h
  balances := by
    intro address balance h
    have h : (((∅ : UMap Str Str).insert (str firstAccount) (str "0x1000000000000000000")).insert
        (str secondAccount) (str "0x500000000000000000")).lookup address = some balance := h
    rw [UMap.lookup_insert, UMap.lookup_insert] at h
    split at h
    · cases h
      decide
    · split at h
      · cases h
        decide
      · cases h

theorem getD_printable {x : Option (Json D)} (h : ∀ j, x = some j → j.Printable) :
    (x.getD .null).Printable := by
  cases x with
  | none => exact .null
  | some j => exact h j rfl

theorem sound_getBlockByHash {m : BlockchainRpcMethodsImpl D} (hm : m.Printed) {params : Json D}
    (hparams : params.Printable) : Sound Single (m.ethGetBlockByHash params) := by
  refine sound_stringMethod (by decide) hparams fun blockHash _ => ?_
  have hblock : Sound Single (.ok (resultOf ((m.mockBlocks.lookup blockHash).getD .null))) :=
    .ok (single_resultOf (getD_printable (hm.blocks blockHash)))
  split
  · exact (sound_param hparams 1).bind fun j _ => (sound_asBool j).bind fun _ _ => hblock
  · exact hblock

theorem receipt_printable {txHash : Str} (h : utf8 txHash = true) :
    (fieldsOf [("transactionHash", .string txHash), ("transactionIndex", text "0x0"),
      ("blockHash", .string (zeros 64)), ("blockNumber", text "0x0"), ("from", text firstAccount),
      ("to", text secondAccount), ("cumulativeGasUsed", text "0x5208"), ("gasUsed", text "0x5208"),
      ("contractAddress", .null), ("logs", .array []), ("logsBloom", .string (zeros 512)),
      ("status", text "0x1")] : Json D).Printable := by
  refine fieldsOf_printable ?_ ?_
  · simp only [List.map_cons, List.map_nil]
    decide
  · simp only [List.map_cons, List.map_nil, List.forall_mem_cons]
    exact ⟨.string h, text_printable (by decide +kernel), .string (utf8_zeros 64), text_printable (by decide +kernel),
      text_printable (by decide +kernel), text_printable (by decide +kernel), text_printable (by decide +kernel),
      text_printable (by decide +kernel), .null, .array (List.forall_mem_nil _), .string (utf8_zeros 512),
      text_printable (by decide +kernel), List.forall_mem_nil _⟩

/-- all methods of the blockchain have one outcome -/
theorem methods_answer {m : BlockchainRpcMethodsImpl D} (hm : m.Printed) (toUInt64 : D → UInt64)
    (now : UInt64) : ∀ p ∈ m.methods toUInt64 now, Answers (some p.2) := by
  have hresult : ∀ value : Json D, value.Printable → Answers (some fun _ => .ok (resultOf value)) :=
    fun value h params _ => .ok (single_resultOf h)
  have hstring : ∀ message, utf8 (str message) = true → ∀ value : Str → Json D,
      (∀ s, utf8 s = true → (value s).Printable) →
      Answers (some fun params => stringMethod message params fun s => .ok (resultOf (value s))) :=
    fun message hmessage value hvalue params hparams =>
      sound_stringMethod hmessage hparams fun s hs => .ok (single_resultOf (hvalue s hs))
  simp only [BlockchainRpcMethodsImpl.methods, List.forall_mem_cons]
  refine ⟨fun _ h => sound_getBlockByHash hm h, fun _ h => sound_getBlockByNumber toUInt64 now h,
    hresult _ (.string (utf8_numberToHex 0)),
    hstring _ (by decide) _ fun txHash _ => getD_printable (hm.transactions txHash),
    hstring _ (by decide) _ fun _ h => receipt_printable h,
    hstring _ (by decide) _ fun _ _ => .string (utf8_zeros 64),
    hstring _ (by decide) _ fun address _ => .string ?_,
    hstring _ (by decide) _ fun _ _ => text_printable (by decide +kernel),
    hresult _ (.string hm.network), hresult _ (.string (utf8_numberToHex m.chainId)),
    hresult _ (text_printable (by decide +kernel)), hresult _ (text_printable (by decide +kernel)), List.forall_mem_nil _⟩
  cases hbalance : m.mockBalances.lookup address with
  | none => decide
  | some balance => exact hm.balances address balance hbalance

/-! ## the server -/

/-- **Every POST is answered.**  A server on which functions with one outcome are registered, in any
order and with requests under way, answers every POST, whatever its body is, by one JSON-RPC
response, with a result or an error and not both; and so are the answers to the requests under
way. -/
theorem post_answered (json : Nlohmann D) (config : RpcServerConfig)
    (events : List (RpcEvent (Json D))) (hevents : ∀ e ∈ events, Orderly json e) :
    EveryStep RpcServerImpl.step (fun s e => ∀ request r, s.answered e = some (request, r) →
        ∃ text, json.dump (answerTo request r).toJson = some text ∧ IsAnswer json text) {} events ∧
      ∀ request : HttpRequest, request.method = str "POST" →
        ∃ r, (handleHttpRequest json config (run RpcServerImpl.step {} events) request).1 = some r ∧
          IsAnswer json r.body := by
  have hstart : AllAnswer ({} : RpcServerImpl (Json D)) := ⟨fun _ _ h => (nomatch h), nofun⟩
  generalize ({} : RpcServerImpl (Json D)) = s at hstart
  induction events generalizing s with
  | nil => exact ⟨trivial, fun request hpost => hstart.post hpost⟩
  | cons e events ih =>
    obtain ⟨he, hevents⟩ := List.forall_mem_cons.mp hevents
    obtain ⟨hsteps, hpost⟩ := ih hevents _ (hstart.step he)
    refine ⟨⟨fun request r ha => ?_, hsteps⟩, hpost⟩
    obtain ⟨hsingle, hreadable⟩ := hstart.answered he ha
    obtain ⟨text, htext, -, hanswer⟩ := (hsingle.answerTo hreadable).dump json
    exact ⟨text, htext, hanswer⟩

/-- a server with all methods of the blockchain -/
def registrations (m : BlockchainRpcMethodsImpl D) (toUInt64 : D → UInt64) (now : UInt64) :
    List (RpcEvent (Json D)) :=
  (m.methods toUInt64 now).map fun p => .registerMethod (str p.1) (some p.2)

theorem registrations_orderly (json : Nlohmann D) {m : BlockchainRpcMethodsImpl D} (hm : m.Printed)
    (toUInt64 : D → UInt64) (now : UInt64) :
    ∀ e ∈ registrations m toUInt64 now, Orderly json e := by
  intro e he
  obtain ⟨p, hp, rfl⟩ := List.mem_map.mp he
  exact methods_answer hm toUInt64 now p hp

/-- all methods are registered, and a client asks -/
def blockchainEvents : List (RpcEvent (Json Empty)) :=
  registrations (.make 0) (fun x => x.elim) 0

theorem post_answered_blockchain :
    ∃ r, (handleHttpRequest plainJson {} (run RpcServerImpl.step {} blockchainEvents)
        (requestWith (.integer 1))).1 = some r ∧ IsAnswer plainJson r.body :=
  (post_answered plainJson {} blockchainEvents
    (registrations_orderly plainJson (make_printed 0) _ 0)).2 (requestWith (.integer 1)) rfl

-- a method that throws a string that is not UTF-8, and the exception that a client causes with it
example : (handleHttpRequest plainJson {} (run RpcServerImpl.step {}
    [.registerMethod (str "getBlock") (some fun _ => .error [0xFF])]) (requestWith (.integer 1))).1
      = none := by
  decide +kernel

/-! ## block numbers -/

theorem numberToHex_length (n : UInt64) : 3 ≤ (numberToHex n).length := by
  have hne : 0 < (hexText n.toNat).length := List.length_pos_iff.mpr (hexText_spec n.toNat).1
  have hlen : (numberToHex n).length = 2 + (hexText n.toNat).length := List.length_append
  omega

theorem numberToHex_take (n : UInt64) : (numberToHex n).take 2 = str "0x" := rfl

/-- a number that was printed is read back -/
theorem hexToNumber_numberToHex (n : UInt64) : hexToNumber (numberToHex n) = n := by
  have hlen := numberToHex_length n
  have hdrop : (numberToHex n).drop 2 = hexText n.toNat := rfl
  have hmarked : ¬ ((numberToHex n).length < 3 ∨ (numberToHex n).take 2 ≠ str "0x") := by
    rintro (h | h)
    · exact absurd hlen (Nat.not_le.mpr h)
    · exact h (numberToHex_take n)
  unfold hexToNumber
  rw [if_neg hmarked, hdrop, stoull16_hexText]

/-- the words for blocks are no numbers -/
theorem numberToHex_ne {s : Str} (hs : s.take 2 ≠ str "0x") (n : UInt64) : numberToHex n ≠ s := by
  rintro rfl
  exact hs (numberToHex_take n)

theorem blockNumberOf_numberToHex (n : UInt64) :
    BlockchainRpcMethodsImpl.blockNumberOf (numberToHex n) = n := by
  unfold BlockchainRpcMethodsImpl.blockNumberOf
  rw [if_neg (numberToHex_ne (by decide) n), if_neg (numberToHex_ne (by decide) n),
    if_neg (numberToHex_ne (by decide) n), hexToNumber_numberToHex]

/-- the number of the block in the answer -/
def NumberIs (json : Nlohmann D) (response : Option HttpResponse) (number : Str) : Prop :=
  ∃ r value block, response = some r ∧ json.parse r.body = some value ∧
    value.field (str "result") = some block ∧ block.field (str "number") = some (.string number)

theorem find_foldl_set {name : Str} (l : List (String × Json D)) :
    (∀ key ∈ l.map Prod.fst, name ≠ str key) → ∀ fields : Json.Fields D,
      Json.findField name (l.foldl (fun fs p => Json.setField (str p.1) p.2 fs) fields)
        = Json.findField name fields := by
  induction l with
  | nil => exact fun _ _ => rfl
  | cons p l ih =>
    intro h fields
    obtain ⟨hp, hl⟩ := List.forall_mem_cons.mp h
    rw [List.foldl_cons, ih hl, Json.findField_setField_of_ne hp]

theorem createMockBlock_number (now number : UInt64) (hash : Str) :
    (createMockBlock now number hash : Json D).field (str "number")
      = some (.string (numberToHex number)) := by
  unfold createMockBlock fieldsOf
  rw [Json.field, List.foldl_cons, find_foldl_set, Json.findField_setField]
  simp only [List.map_cons, List.map_nil]
  decide

/-- a valid request for a registered method is answered by it -/
theorem process_registered {s : RpcServerImpl (Json D)} {rpc : JsonRpcRequest (Json D)}
    (method : Method D) {r : Response D} (hs : s.methods.lookup rpc.method = some (some method))
    (hvalid : rpc.isValid = true) (hr : method rpc.params = .ok r) :
    (s.processJsonrpcRequest rpc).1 = r := by
  have hcheck : s.checkMethod rpc = none := by
    unfold RpcServerImpl.checkMethod RpcServerImpl.hasMethod
    rw [hvalid, hs]
    rfl
  unfold RpcServerImpl.processJsonrpcRequest
  rw [hcheck]
  dsimp only
  rw [executeMethod_present hs]
  unfold RpcMethodHandler.answer RpcMethodHandler.call
  dsimp only
  rw [hr]

theorem answerTo_result (request : JsonRpcRequest (Json D)) (r : Response D) :
    (answerTo request r).result = r.result := by
  unfold answerTo
  split <;> rfl

/-- the number in an answer with a block -/
theorem numberIs_iff {json : Nlohmann D} {response : Option HttpResponse} {r : HttpResponse}
    {now number : UInt64} {hash : Str} {rpc : JsonRpcRequest (Json D)} (hr : response = some r)
    (hbody : json.parse r.body = some ((answerTo rpc (resultOf
      (createMockBlock now number hash))).toJson.printed json.finite))
    (text : Str) : NumberIs json response text ↔ text = numberToHex number := by
  have hresult : ((answerTo rpc (resultOf (createMockBlock now number hash))).toJson.printed
      json.finite).field (str "result")
        = some ((createMockBlock now number hash).printed json.finite) := by
    rw [Json.field_printed, (toJson_field _).2.1, answerTo_result]
    rfl
  have hnumber : ((createMockBlock now number hash).printed json.finite).field (str "number")
      = some (.string (numberToHex number)) := by
    rw [Json.field_printed, createMockBlock_number]
    rfl
  constructor
  · rintro ⟨r', value, block, hr', hparse, hfound, hblock⟩
    rw [hr] at hr'
    cases hr'
    rw [hbody] at hparse
    cases hparse
    rw [hresult] at hfound
    cases hfound
    rw [hnumber] at hblock
    cases hblock
    rfl
  · rintro rfl
    exact ⟨r, _, _, hr, hbody, hresult, hnumber⟩

/-- **Which block numbers come back.**  A client that asks for a block by a string reads the same
string as the number of the block exactly if it is a number as the server prints it; all 2^64 are. -/
theorem block_number_echoed_iff (json : Nlohmann D) (config : RpcServerConfig)
    (s : RpcServerImpl (Json D)) (toUInt64 : D → UInt64) (now : UInt64)
    (hs : s.methods.lookup (str "eth_getBlockByNumber")
      = some (some (BlockchainRpcMethodsImpl.ethGetBlockByNumber toUInt64 now)))
    (request : HttpRequest) (rpc : JsonRpcRequest (Json D))
    (hpost : request.method = str "POST")
    (hrpc : JsonRpcRequest.fromJson json request.body = some rpc) (hversion : rpc.jsonrpc = str "2.0")
    (hmethod : rpc.method = str "eth_getBlockByNumber") (asked : Str)
    (rest : List (Json D)) (hparams : rpc.params = .array (.string asked :: rest)) :
    NumberIs json (handleHttpRequest json config s request).1 asked ↔
      ∃ n : UInt64, asked = numberToHex n := by
  have hprocess : (s.processJsonrpcRequest rpc).1
      = resultOf (createMockBlock now (BlockchainRpcMethodsImpl.blockNumberOf asked) (zeros 64)) := by
    have hregistered : s.methods.lookup rpc.method
        = some (some (BlockchainRpcMethodsImpl.ethGetBlockByNumber toUInt64 now)) := by
      rw [hmethod, hs]
    have hvalid : rpc.isValid = true := by
      unfold JsonRpcRequest.isValid
      rw [hversion, hmethod]
      rfl
    refine process_registered _ hregistered hvalid ?_
    rw [hparams]
    rfl
  have hsingle : Single (s.processJsonrpcRequest rpc).1 := by
    rw [hprocess]
    exact single_resultOf (createMockBlock_printable now _ (utf8_zeros 64))
  obtain ⟨r, hr, -, hbody⟩ := handle_single config hpost hrpc hsingle
  rw [hprocess] at hbody
  rw [numberIs_iff hr hbody]
  constructor
  · exact fun h => ⟨_, h⟩
  · rintro ⟨n, rfl⟩
    rw [blockNumberOf_numberToHex]

end

/-! A request for the block with the number 16. -/

def numberFields (asked : Str) : Json.Fields Empty :=
  Json.setField (str "params") (.array [.string asked])
    (Json.setField (str "method") (.string (str "eth_getBlockByNumber"))
      (Json.setField (str "jsonrpc") (.string (str "2.0")) []))

def numberRequest (asked : Str) : HttpRequest :=
  { method := str "POST", body := Json.render (.object (numberFields asked)) }

theorem numberRequest_read {asked : Str} (h : utf8 asked = true) :
    JsonRpcRequest.fromJson plainJson (numberRequest asked).body
      = some { method := str "eth_getBlockByNumber", params := .array [.string asked] } := by
  have hparams : (Json.array [.string asked] : Json Empty).Printable :=
    .array (List.forall_mem_cons.mpr ⟨.string h, List.forall_mem_nil _⟩)
  have hfields : (Json.object (numberFields asked)).Printable :=
    ((Json.Printable.empty.setField (by decide) (.string (by decide))).setField (by decide)
      (.string (by decide))).setField (by decide) hparams
  have hbody : plainJson.parse (numberRequest asked).body = some (.object (numberFields asked)) :=
    Json.plainParse_render hfields
  exact fromJson_object hbody rfl rfl

theorem block_number_echoed_sixteen :
    NumberIs plainJson (handleHttpRequest plainJson {} (run RpcServerImpl.step {} blockchainEvents)
        (numberRequest (str "0x10"))).1 (str "0x10") ↔
      ∃ n : UInt64, str "0x10" = numberToHex n :=
  block_number_echoed_iff plainJson {} (run RpcServerImpl.step {} blockchainEvents)
    (fun x => x.elim) 0 rfl (numberRequest (str "0x10")) _ rfl (numberRequest_read (by decide)) rfl rfl
    (str "0x10") [] rfl

end Rpc
end ChainForge
