import KeyedStore.Attribute.Json
import KeyedStore.Backend.Memory
import KeyedStore.Backend.Script
import KeyedStore.Request.Builder
import KeyedStore.Request.Json
import KeyedStore.Store.Open
import KeyedStore.Proofs.Attribute.Tagged
import KeyedStore.Proofs.Attribute.RoundTrip
import KeyedStore.Proofs.Expression.ReadBack
import KeyedStore.Proofs.Path.Document
import KeyedStore.Proofs.Path.Grammar
import KeyedStore.Proofs.Request.Shape
import KeyedStore.Proofs.Response.Integers
import KeyedStore.Proofs.ResultCache.History
import KeyedStore.Proofs.Rollback.Deleted
import KeyedStore.Proofs.Rollback.Elements
import KeyedStore.Proofs.Rollback.Overlap
import KeyedStore.Proofs.Rollback.Order
import KeyedStore.Proofs.Rollback.Targets
import KeyedStore.Proofs.Store.Calls
import KeyedStore.Proofs.Store.Continuation
import KeyedStore.Proofs.Store.Outdated
import KeyedStore.Proofs.Store.Pages
import KeyedStore.Proofs.Store.Reread
