import RpcFraming.Codec

/-!
# Tickets

A codec for two ends that live in one process. Serializing keeps the message in a shared table and
hands out a ticket for it, the letter `M` and seven decimal digits; parsing takes a ticket back to
the message. Anything that is not a ticket of the table is not a message.

What is proved: a ticket names the place for which it was made; and as the table only grows, every
message that was serialized is parsed back at any later time.
-/

namespace RpcFraming.Ticket

/-- The messages for which there are tickets, in the order in which these were handed out. -/
abbrev Table := Array Message

/-- The letter that opens a ticket. -/
def letter : UInt8 := 0x4D

/-- The number of digits of a ticket. -/
def width : Nat := 7

/-- The number of tickets that the digits can tell apart. -/
def capacity : Nat := 10000000

/-! ### Decimal digits -/

/-- The byte that shows a digit. -/
def digit (d : Nat) : UInt8 := UInt8.ofNat (0x30 + d)

/-- The digit that a byte shows. -/
def digit? (b : UInt8) : Option Nat :=
  if 0x30 ≤ b ∧ b ≤ 0x39 then some (b.toNat - 0x30) else none

/-- The numeral that some digits make up. -/
def numeral (digits : List Nat) : Nat := digits.foldl (fun n d => 10 * n + d) 0

theorem digit?_digit {d : Nat} (h : d < 10) : digit? (digit d) = some d := by
  have hall : ∀ d : Fin 10, digit? (digit d.val) = some d.val := by decide
  exact hall ⟨d, h⟩

theorem mapM_digit?_map_digit {digits : List Nat} (h : ∀ d ∈ digits, d < 10) :
    (digits.map digit).mapM digit? = some digits := by
  induction digits with
  | nil => rfl
  | cons d digits ih =>
    rw [List.map_cons, List.mapM_cons, digit?_digit (h d (by simp)),
      ih fun e he => h e (by simp [he])]
    rfl

/-! ### Tickets -/

/-- The digits of the `n`-th ticket. -/
def digitsOf (n : Nat) : List Nat :=
  [n / 1000000 % 10, n / 100000 % 10, n / 10000 % 10, n / 1000 % 10, n / 100 % 10, n / 10 % 10,
    n % 10]

/-- The ticket of the `n`-th message. -/
def ofIndex (n : Nat) : Bytes := letter :: (digitsOf n).map digit

/-- The place in the table that a ticket names. -/
def index? : Bytes → Option Nat
  | first :: rest =>
    if first = letter ∧ rest.length = width then (rest.mapM digit?).map numeral else none
  | [] => none

@[simp] theorem length_ofIndex (n : Nat) : (ofIndex n).length = 8 := by
  simp [ofIndex, digitsOf]

theorem numeral_digitsOf {n : Nat} (h : n < capacity) : numeral (digitsOf n) = n := by
  simp only [capacity] at h
  simp only [digitsOf, numeral, List.foldl_cons, List.foldl_nil]
  omega

theorem lt_of_mem_digitsOf {n d : Nat} (h : d ∈ digitsOf n) : d < 10 := by
  simp only [digitsOf, List.mem_cons, List.not_mem_nil, or_false] at h
  omega

/-- A ticket names the place for which it was made. -/
theorem index?_ofIndex {n : Nat} (h : n < capacity) : index? (ofIndex n) = some n := by
  rw [ofIndex, index?, if_pos ⟨rfl, by simp [digitsOf, width]⟩,
    mapM_digit?_map_digit fun _ => lt_of_mem_digitsOf, Option.map_some, numeral_digitsOf h]

/-- The codec that keeps its messages in a table. It runs out when the digits do. -/
def codec : Codec (StateM Table) where
  serialize message := do
    let table ← get
    if table.size < capacity then
      set (table.push message)
      return some (ofIndex table.size)
    else
      return none
  parse bytes := do
    let table ← get
    return (index? bytes).bind fun n => table[n]?

/-! ### What was serialized is parsed back -/

theorem run_serialize (message : Message) (table : Table) :
    Id.run ((codec.serialize message).run table)
      = if table.size < capacity then (some (ofIndex table.size), table.push message)
        else (none, table) := by
  by_cases h : table.size < capacity
  · rw [if_pos h]
    show Id.run (StateT.run (if _ then _ else _) table) = _
    rw [if_pos h]
    rfl
  · rw [if_neg h]
    show Id.run (StateT.run (if _ then _ else _) table) = _
    rw [if_neg h]
    rfl

theorem run_parse (bytes : Bytes) (table : Table) :
    Id.run ((codec.parse bytes).run table) = ((index? bytes).bind fun n => table[n]?, table) := rfl

theorem isPrefix_of_run_serialize (message : Message) (table : Table) :
    table.toList <+: (Id.run ((codec.serialize message).run table)).2.toList := by
  rw [run_serialize]
  split
  · exact ⟨[message], by rw [Array.toList_push]⟩
  · exact List.prefix_rfl

/-- The table after more messages are serialized. -/
def grow (table : Table) (messages : List Message) : Table :=
  messages.foldl (fun table message => (Id.run ((codec.serialize message).run table)).2) table

/-- The table only grows. -/
theorem isPrefix_grow (table : Table) (messages : List Message) :
    table.toList <+: (grow table messages).toList := by
  induction messages generalizing table with
  | nil => exact List.prefix_rfl
  | cons message messages ih => exact (isPrefix_of_run_serialize message table).trans (ih _)

/-- **A ticket is taken back to its message**, however many messages are serialized after it. -/
theorem run_parse_grow {message : Message} {table table' : Table} {bytes : Bytes}
    (h : Id.run ((codec.serialize message).run table) = (some bytes, table'))
    (messages : List Message) :
    Id.run ((codec.parse bytes).run (grow table' messages))
      = (some message, grow table' messages) := by
  rw [run_serialize] at h
  split at h
  · next hroom =>
    cases h
    have hgrown := isPrefix_grow (table.push message) messages
    have hplace : (grow (table.push message) messages)[table.size]? = some message := by
      rw [← Array.getElem?_toList, List.prefix_iff_getElem?.1 hgrown table.size (by simp)]
      simp
    rw [run_parse, index?_ofIndex hroom, Option.bind_some, hplace]
  · cases h

end RpcFraming.Ticket
