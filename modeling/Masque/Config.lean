import Masque.Error
import Masque.Library.Blame
import Masque.Library.SocketAddr
import Masque.Library.Str

/-!
# Configurations

The two addresses of `config.rs`. What the standard library's parser of socket addresses
accepts, and the text of its error, is a parameter.
-/

namespace Masque

open Outcome

/-- The configuration of a client or a proxy. -/
structure Config where
  bindAddr : SocketAddr
  peerAddr : SocketAddr

namespace Config

section New

variable (fromStr : String → Except String SocketAddr)

def parseAddress (value field : String) : Result SocketAddr :=
  let trimmed := Str.trim value
  if trimmed = "" then .err (.invalidConfig field "must not be empty")
  else
    match fromStr trimmed with
    | .ok addr => .ok addr
    | .error e => .err (.invalidConfig field s!"not a valid socket address: {e}")

def new (bindAddr peerAddr : String) : Result Config := do
  let bindAddr ← parseAddress fromStr bindAddr "bind_addr"
  let peerAddr ← parseAddress fromStr peerAddr "peer_addr"
  return { bindAddr, peerAddr }

end New

/-- The field that a configuration error blames. -/
def field : Error → Option String
  | .invalidConfig field _ => some field
  | _ => none

variable {fromStr : String → Except String SocketAddr}

/-- A text is the literal of an address up to the space around it. -/
def Literal (fromStr : String → Except String SocketAddr) (value : String) (addr : SocketAddr) :
    Prop :=
  Str.trim value ≠ "" ∧ fromStr (Str.trim value) = .ok addr

theorem parseAddress_eq_ok {value field : String} {addr : SocketAddr} :
    parseAddress fromStr value field = .ok addr ↔ Literal fromStr value addr := by
  unfold parseAddress Literal
  dsimp only
  split_ifs with hempty
  · exact iff_of_false nofun fun h => h.1 hempty
  · rw [and_iff_right hempty]
    cases fromStr (Str.trim value) with
    | ok a => simp
    | error e => simp

theorem parseAddress_within (value name : String) :
    Within field {name} (parseAddress fromStr value name) := by
  unfold parseAddress
  dsimp only
  split_ifs
  · exact .err rfl (Set.mem_singleton name)
  · cases fromStr (Str.trim value) with
    | ok addr => exact .ok addr
    | error e => exact .err rfl (Set.mem_singleton name)

theorem blames_parseAddress {value : String} (name : String)
    (h : ∀ addr, ¬Literal fromStr value addr) :
    Blames field name (parseAddress fromStr value name) :=
  (parseAddress_within value name).blames fun addr haddr => h addr (parseAddress_eq_ok.mp haddr)

/-- Why a configuration is refused: the first text that is no address. -/
inductive Fault (fromStr : String → Except String SocketAddr) (bindAddr peerAddr : String) :
    String → Prop
  | bind (h : ∀ addr, ¬Literal fromStr bindAddr addr) : Fault fromStr bindAddr peerAddr "bind_addr"
  | peer {addr : SocketAddr} (hbind : Literal fromStr bindAddr addr)
      (h : ∀ addr, ¬Literal fromStr peerAddr addr) : Fault fromStr bindAddr peerAddr "peer_addr"

/-- A configuration is made of two addresses, and refused for the first text that is none. -/
theorem new_exact (bindAddr peerAddr : String) :
    (∀ config, new fromStr bindAddr peerAddr = .ok config ↔
      Literal fromStr bindAddr config.bindAddr ∧ Literal fromStr peerAddr config.peerAddr) ∧
    ∀ name, Blames field name (new fromStr bindAddr peerAddr) ↔
      Fault fromStr bindAddr peerAddr name := by
  have hok (config : Config) : new fromStr bindAddr peerAddr = .ok config ↔
      Literal fromStr bindAddr config.bindAddr ∧ Literal fromStr peerAddr config.peerAddr := by
    rw [← @parseAddress_eq_ok fromStr bindAddr "bind_addr",
      ← @parseAddress_eq_ok fromStr peerAddr "peer_addr"]
    constructor
    · intro h
      obtain ⟨b, hb, h₁⟩ := bind_eq_ok.mp h
      obtain ⟨p, hp, h₂⟩ := bind_eq_ok.mp h₁
      obtain rfl := ok.inj h₂
      exact ⟨hb, hp⟩
    · intro h
      rw [new, h.1, ok_bind, h.2]
      rfl
  refine ⟨hok, blames_iff_of_cases (fun name h => ?_) ?_⟩
  · cases h with
    | bind h => exact (blames_parseAddress "bind_addr" h).bind _
    | peer hbind h =>
      rw [new, parseAddress_eq_ok.mpr hbind, ok_bind]
      exact (blames_parseAddress "peer_addr" h).bind _
  · by_cases hbind : ∃ addr, Literal fromStr bindAddr addr
    · obtain ⟨b, hb⟩ := hbind
      by_cases hpeer : ∃ addr, Literal fromStr peerAddr addr
      · obtain ⟨p, hp⟩ := hpeer
        exact .inl ⟨⟨b, p⟩, (hok ⟨b, p⟩).mpr ⟨hb, hp⟩⟩
      · exact .inr ⟨_, .peer hb (not_exists.mp hpeer)⟩
    · exact .inr ⟨_, .bind (not_exists.mp hbind)⟩

end Config

end Masque
