/-
  TenantTree.Deployer.Basic — what a deployer works with.

  A deployer binds a store to a context: for which tenant and in whose name it writes, with which
  settings and codec, and at what time.
-/
import TenantTree.Config
import TenantTree.Codec
import TenantTree.Store.Basic
import TenantTree.Value.Listing

namespace TenantTree

/-- For whom and in whose name a deployer writes. -/
structure DeployContext where
  /-- The tenant; what records hold in their tenant field does not matter. -/
  tenant : Value
  actor : Value
  deriving Repr

/-- The context in a listing. -/
def DeployContext.listing (c : DeployContext) : String :=
  "DeployContext \x7b tenant: " ++ c.tenant.listing ++ ", actor: " ++ c.actor.listing ++ " \x7d"

/-- A deployer on a store with states `σ`. -/
structure Deployer (σ : Type) where
  store : Store σ
  context : DeployContext
  config : DeployConfig
  codec : ColumnCodec
  now : Value

namespace Deployer

/-- A deployer that encodes with the key of its settings. -/
def build {σ : Type} (store : Store σ) (context : DeployContext) (config : DeployConfig)
    (cipher : Cipher) (now : Value) : Deployer σ where
  store := store
  context := context
  config := config
  codec := ⟨cipher, config.encryptionKey⟩
  now := now

/-- The deployer in a listing, with the number of types whose metadata it remembers. -/
def listing {σ : Type} (d : Deployer σ) (remembered : Nat) : String :=
  "Deployer \x7b context: " ++ d.context.listing ++ ", config: " ++ d.config.listing
    ++ ", codec: " ++ d.codec.listing ++ ", cached_types: " ++ toString remembered ++ ", .. \x7d"

end Deployer

end TenantTree
