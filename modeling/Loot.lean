import Loot.Affix.Basic
import Loot.Affix.Parse
import Loot.Catalog.Basic
import Loot.Catalog.Edit
import Loot.Catalog.Files
import Loot.Catalog.Load
import Loot.Catalog.Registry
import Loot.Catalog.Standard
import Loot.Decimal.Binary
import Loot.Decimal.Reading
import Loot.Decimal.Shortest
import Loot.Decimal.Text
import Loot.Engine
import Loot.Fault
import Loot.Item.Classification
import Loot.Json.Coerce
import Loot.Json.Compare
import Loot.Json.Literal
import Loot.Json.Quote
import Loot.Json.Read
import Loot.Json.Value
import Loot.Json.Write
import Loot.Num
import Loot.Proofs.Draw
import Loot.Proofs.Registry
import Loot.Proofs.Weighted
import Loot.Random.Seed
import Loot.Random.Sha512
import Loot.Random.Source
import Loot.Random.Twister
import Loot.Random.Weighted
import Loot.Record
import Loot.Roll.Affix
import Loot.Roll.Item
import Loot.Stat
import Loot.Text.Blank
import Loot.Text.Chars
import Loot.Text.Digits
import Loot.Text.Printable
import Loot.Proofs.PoolDraw
import Loot.Proofs.ItemRoll
import Loot.Proofs.Coherence
import Loot.Proofs.CatalogLoad
import Loot.Proofs.CatalogEdit
import Loot.Proofs.LootDrop
import Loot.Proofs.FloatRounding
import Loot.Proofs.FloatBits
import Loot.Proofs.DecimalReading
import Loot.Proofs.DecimalShortest
import Loot.Proofs.NumberToken
import Loot.Proofs.AffixChoice
import Loot.Proofs.Failures
import Loot.Proofs.RollSafety
import Loot.Proofs.Quoting
import Loot.Proofs.LoadFailures
import Loot.Proofs.StatSums
import Loot.Proofs.InstanceRecords
import Loot.Proofs.LoadOrder
import Loot.Proofs.TierOrder
import Loot.Proofs.AffixRoll
import Loot.Proofs.FixedAffixes
import Loot.Proofs.DrawLoop
import Loot.Proofs.TextRoundTrip
import Loot.Proofs.RecordReadBack
import Loot.Proofs.CatalogReload
