import AxiomKernel.Lib.Bytes
import AxiomKernel.Lib.Words
import AxiomKernel.Lib.Slices
import AxiomKernel.Lib.Chunks
import AxiomKernel.Lib.BlockStream
import AxiomKernel.Lib.HashChain
import AxiomKernel.Lib.RingSlots
import AxiomKernel.Lib.LappedRing
import AxiomKernel.Lib.FinitePoset
import AxiomKernel.Lib.Primality
import AxiomKernel.Lib.PolynomialHash
import AxiomKernel.Lib.SteppedRange
import AxiomKernel.Lib.ByteMemory
import AxiomKernel.Lib.StackWords
import AxiomKernel.Lib.TwoRun
import AxiomKernel.Lib.EventRun
import AxiomKernel.Lib.LabelledRun
import AxiomKernel.Lib.RingQueue
import AxiomKernel.Lib.RingSearch
import AxiomKernel.Lib.InformationFlow
import AxiomKernel.Lib.TextPatterns
import AxiomKernel.Crypto.Sha256
import AxiomKernel.Crypto.Fips180
import AxiomKernel.Crypto.Sha256Conformance
import AxiomKernel.Crypto.Rfc5869
import AxiomKernel.Crypto.HmacConformance
import AxiomKernel.Meal.Log
import AxiomKernel.Meal.History
import AxiomKernel.Meal.Tamper
import AxiomKernel.Meal.Runs
import AxiomKernel.Meal.Concurrent
import AxiomKernel.Meal.Archive
import AxiomKernel.Tcd.Capability
import AxiomKernel.Tcd.Attenuation
import AxiomKernel.Tcd.Authority
import AxiomKernel.Tcd.Lineage
import AxiomKernel.Lattice.SecurityLattice
import AxiomKernel.Lattice.Axioms
import AxiomKernel.Lattice.Flow
import AxiomKernel.Lattice.Bounds
import AxiomKernel.Aead.Rfc8439
import AxiomKernel.Aead.ChaCha20
import AxiomKernel.Aead.Poly1305
import AxiomKernel.Aead.Poly1305Conformance
import AxiomKernel.Aead.Poly1305Carries
import AxiomKernel.Aead.SealOpen
import AxiomKernel.Aead.HmacAead
import AxiomKernel.Aead.OneTimeBound
import AxiomKernel.Aead.SessionKey
import AxiomKernel.Memory.FrameAllocator
import AxiomKernel.Memory.FrameHandout
import AxiomKernel.Memory.Paging
import AxiomKernel.Memory.MappingRuns
import AxiomKernel.Memory.Heap
import AxiomKernel.Memory.Trampoline
import AxiomKernel.User.ElfLoader
import AxiomKernel.User.Setup
import AxiomKernel.User.FreshPages
import AxiomKernel.User.ElfFormat
import AxiomKernel.User.LoadPlan
import AxiomKernel.User.FilePages
import AxiomKernel.User.KernelHalf
import AxiomKernel.User.LoadedImage
import AxiomKernel.User.MalformedFiles
import AxiomKernel.User.Isolation
import AxiomKernel.Eipc.Channel
import AxiomKernel.Eipc.Authenticity
import AxiomKernel.Sched.Scheduler
import AxiomKernel.Sched.RoundRobin
import AxiomKernel.Sched.Accounting
import AxiomKernel.Sched.Fences
import AxiomKernel.Sched.ContextSwitch
import AxiomKernel.Sched.TaskContexts
import AxiomKernel.Sched.Preemption
import AxiomKernel.Syscall.Entry
import AxiomKernel.Syscall.UserRuns
import AxiomKernel.Syscall.Dispatch
import AxiomKernel.Ztdf.Driver
import AxiomKernel.Ztdf.Halting
import AxiomKernel.Ztdf.Exactness
import AxiomKernel.Net.Frames
import AxiomKernel.Net.Acceptance
import AxiomKernel.Net.Transmit
import AxiomKernel.Smp.Madt
import AxiomKernel.Smp.Acpi
import AxiomKernel.Smp.Processor
import AxiomKernel.Smp.ApStart
import AxiomKernel.Smp.BringUp
import AxiomKernel.Smp.Turns
import AxiomKernel.Smp.OwnStacks
import AxiomKernel.Smp.LateStart
import AxiomKernel.LogBuffer.Ring
import AxiomKernel.LogBuffer.Delivery
import AxiomKernel.Tests.CryptoVectors
